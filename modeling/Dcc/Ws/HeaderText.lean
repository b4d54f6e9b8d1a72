import Mathlib.Data.List.Basic
import Mathlib.Data.List.TakeWhile
import Mathlib.Data.List.Infix
import Dcc.Basic

/-!
# Scanning the text of an HTTP response

The handshake looks at the response three times: for the blank line that ends
the header, for the status code, with `sscanf`, and for the value of a header
line.  Each of the last two stops at what it looks for, so what stands behind
the header cannot change what they find in it.

* `findHeaderEnd_first` — the blank line that is found is the first one;
* `scanStatusCode_append`, `headerValue_append` — what is found in a header is
  found whatever comes after it.
-/

namespace Dcc.WebSocket

/-- `"\r\n"`. -/
def crlf : Bytes := [13, 10]

/-- `"\r\n\r\n"`. -/
def blankLine : Bytes := [13, 10, 13, 10]

/-- `dcc_ws_find_header_end`: the offset of the first blank line. -/
def findHeaderEnd : Bytes → Option Nat
  | [] => none
  | b :: rest =>
    if blankLine.isPrefixOf (b :: rest) then some 0 else (findHeaderEnd rest).map (· + 1)

/-- What a string function sees of a buffer. -/
def terminatedText (buffer : Bytes) : Bytes := buffer.takeWhile (· != 0)

/-! ## The status line -/

/-- `isspace`. -/
def isSpace (b : UInt8) : Bool := b == 32 || (9 ≤ b && b ≤ 13)

/-- `isdigit`. -/
def isDigit (b : UInt8) : Bool := 48 ≤ b && b ≤ 57

/-- The optional sign in front of a number, and whether it is a minus. -/
def scanSign : Bytes → Bool × Bytes
  | [] => (false, [])
  | b :: rest => if b = 43 then (false, rest) else if b = 45 then (true, rest) else (false, b :: rest)

/-- The value of the digits as an `unsigned long` of 64 bits, stored to an `unsigned`. -/
def unsignedValue (negative : Bool) (digits : Bytes) : Nat :=
  let magnitude := digits.foldl (fun value d => value * 10 + (d.toNat - 48)) 0
  let long := if magnitude > wordMax then wordMax
    else if negative then (wordSize - magnitude) % wordSize else magnitude
  long % 2 ^ 32

/-- `%u` of `sscanf`: the number, and what follows it. -/
def scanUnsigned (text : Bytes) : Option (Nat × Bytes) :=
  let signed := scanSign (text.dropWhile isSpace)
  let digits := signed.2.takeWhile isDigit
  if digits = [] then none
  else some (unsignedValue signed.1 digits, signed.2.dropWhile isDigit)

/-- Ordinary characters of the format of `sscanf`. -/
def scanLiteral (literal text : Bytes) : Option Bytes :=
  if literal.isPrefixOf text then some (text.drop literal.length) else none

/-- `sscanf(text, "HTTP/%*u.%*u %u", &code)`; none unless it gives 1. -/
def scanStatusCode (text : Bytes) : Option Nat := do
  let text ← scanLiteral [72, 84, 84, 80, 47] text
  let (_, text) ← scanUnsigned text
  let text ← scanLiteral [46] text
  let (_, text) ← scanUnsigned text
  let (code, _) ← scanUnsigned (text.dropWhile isSpace)
  return code

/-! ## Header lines -/

/-- The text up to the first `"\r\n"` and, if there is one, what follows it. -/
def splitLine : Bytes → Bytes × Option Bytes
  | [] => ([], none)
  | b :: rest =>
    if crlf.isPrefixOf (b :: rest) then ([], some (rest.drop 1))
    else (b :: (splitLine rest).1, (splitLine rest).2)

/-- The lower case of a letter, as `dcc_ws_ascii_ieq_n` compares it. -/
def lowered (b : UInt8) : UInt8 := if 65 ≤ b ∧ b ≤ 90 then b - 65 + 97 else b

/-- The name of a line matches, before a colon. -/
def lineNamed (name line : Bytes) : Bool :=
  let field := line.takeWhile (· != 58)
  field.length < line.length && field.length == name.length && field.map lowered == name.map lowered

/-- The blanks between the colon of a line and its value. -/
def blanksAfter (name line : Bytes) : Nat :=
  ((line.drop (name.length + 1)).takeWhile fun b => b == 32 || b == 9).length

/-- The loop of `dcc_ws_header_value`; the value is the rest of the text from its
first byte on. -/
def headerValueLoop (name : Bytes) : Nat → Bytes → Option Bytes
  | 0, _ => none
  | fuel + 1, text =>
    if text = [] then none
    else
      let (line, next) := splitLine text
      if lineNamed name line then some (text.drop (name.length + 1 + blanksAfter name line))
      else
        match next with
        | none => none
        | some next => headerValueLoop name fuel next

/-- `dcc_ws_header_value`; every round leaves a shorter text. -/
def headerValue (name text : Bytes) : Option Bytes := headerValueLoop name (text.length + 1) text

/-- `"Sec-WebSocket-Accept"`. -/
def acceptName : Bytes := asciiText "Sec-WebSocket-Accept"

/-- The value of the accept line, up to the end of the line. -/
def acceptValue (text : Bytes) : Option Bytes :=
  (headerValue acceptName text).map fun accept => (splitLine accept).1

/-! ## The blank line -/

section

variable {data : Bytes} {i : Nat} (h : findHeaderEnd data = some i)
include h

theorem findHeaderEnd_prefix :
    blankLine <+: data.drop i := by
  induction data generalizing i with
  | nil => simp [findHeaderEnd] at h
  | cons b rest ih =>
    rw [findHeaderEnd] at h
    split at h
    · rename_i hhere
      cases h
      exact List.isPrefixOf_iff_prefix.mp hhere
    · obtain ⟨j, hj, rfl⟩ := Option.map_eq_some_iff.mp h
      exact ih hj

/-- **The blank line that is found is the first.** -/
theorem findHeaderEnd_first :
    ∀ j < i, ¬ blankLine <+: data.drop j := by
  induction data generalizing i with
  | nil => simp [findHeaderEnd] at h
  | cons b rest ih =>
    rw [findHeaderEnd] at h
    split at h
    · cases h
      intro j hj
      exact absurd hj (Nat.not_lt_zero j)
    · rename_i hhere
      obtain ⟨k, hk, rfl⟩ := Option.map_eq_some_iff.mp h
      intro j hj
      cases j with
      | zero => exact fun hprefix => hhere (List.isPrefixOf_iff_prefix.mpr hprefix)
      | succ j => exact ih hk j (by omega)

theorem findHeaderEnd_split :
    i + 4 ≤ data.length ∧ ∃ front, data.take (i + 4) = front ++ blankLine := by
  obtain ⟨rest, hrest⟩ := findHeaderEnd_prefix h
  have hlength : data.length - i = 4 + rest.length := by
    have := congrArg List.length hrest
    simp only [List.length_append, List.length_drop, blankLine, List.length_cons,
      List.length_nil] at this
    omega
  refine ⟨by omega, data.take i, ?_⟩
  rw [List.take_add, ← hrest]
  rfl

end

/-! ## What is found in a header stays found -/

section Append

variable {text rest : Bytes}

/-- The text ends with a line feed. -/
def EndsLine (text : Bytes) : Prop := text.getLast? = some 10

theorem EndsLine.of_suffix (h : EndsLine text) (hsuffix : rest <:+ text) (hrest : rest ≠ []) :
    EndsLine rest := by
  obtain ⟨front, rfl⟩ := hsuffix
  rwa [EndsLine, List.getLast?_append_of_ne_nil _ hrest] at h

variable {p : UInt8 → Bool}

theorem dropWhile_append_of_ne_nil (h : text.dropWhile p ≠ [])
    (rest : Bytes) : (text ++ rest).dropWhile p = text.dropWhile p ++ rest := by
  rw [List.dropWhile_append, if_neg (by simpa using h)]

theorem takeWhile_append_of_ne_nil (h : text.dropWhile p ≠ [])
    (rest : Bytes) : (text ++ rest).takeWhile p = text.takeWhile p := by
  rw [List.takeWhile_append, if_neg]
  intro hlength
  have hall : text.takeWhile p = text := (List.takeWhile_prefix p).eq_of_length hlength
  apply h
  have hsplit := List.takeWhile_append_dropWhile (p := p) (l := text)
  rw [hall] at hsplit
  exact List.append_right_eq_self.mp hsplit

theorem EndsLine.dropWhile_ne_nil (h : EndsLine text) (hp : p 10 = false) :
    text.dropWhile p ≠ [] := by
  intro hall
  have hdigit := List.dropWhile_eq_nil_iff.mp hall 10 (List.mem_of_getLast? h)
  rw [hp] at hdigit
  exact Bool.false_ne_true hdigit

theorem scanSign_append (h : text ≠ []) (rest : Bytes) :
    scanSign (text ++ rest) = ((scanSign text).1, (scanSign text).2 ++ rest) ∧
      (scanSign text).2 <:+ text := by
  cases text with
  | nil => exact absurd rfl h
  | cons b tail =>
    simp only [List.cons_append, scanSign]
    split
    · exact ⟨rfl, List.suffix_cons b tail⟩
    · split
      · exact ⟨rfl, List.suffix_cons b tail⟩
      · exact ⟨rfl, List.suffix_refl _⟩

theorem scanUnsigned_append {n : Nat} {tail : Bytes} (h : EndsLine text)
    (hscan : scanUnsigned text = some (n, tail)) :
    EndsLine tail ∧ ∀ rest, scanUnsigned (text ++ rest) = some (n, tail ++ rest) := by
  simp only [scanUnsigned] at hscan
  split at hscan
  · simp at hscan
  · rename_i hdigits
    have hspaced : text.dropWhile isSpace ≠ [] := by
      intro hnil
      simp [hnil, scanSign] at hdigits
    have hsuffix := (scanSign_append hspaced []).2
    have hsigned : EndsLine (scanSign (text.dropWhile isSpace)).2 := by
      refine (h.of_suffix (List.dropWhile_suffix _) hspaced).of_suffix hsuffix ?_
      intro hnil
      simp [hnil] at hdigits
    have hrest := hsigned.dropWhile_ne_nil (p := isDigit) (by decide)
    simp only [Option.some.injEq, Prod.mk.injEq] at hscan
    obtain ⟨rfl, rfl⟩ := hscan
    refine ⟨hsigned.of_suffix (List.dropWhile_suffix _) hrest, fun rest => ?_⟩
    simp only [scanUnsigned]
    rw [dropWhile_append_of_ne_nil hspaced, (scanSign_append hspaced rest).1,
      takeWhile_append_of_ne_nil hrest, dropWhile_append_of_ne_nil hrest, if_neg hdigits]

theorem scanLiteral_append {literal tail : Bytes} (h : EndsLine text)
    (hliteral : 10 ∉ literal) (hscan : scanLiteral literal text = some tail) :
    EndsLine tail ∧ ∀ rest, scanLiteral literal (text ++ rest) = some (tail ++ rest) := by
  unfold scanLiteral at hscan
  split at hscan
  · rename_i hprefix
    obtain ⟨tail', rfl⟩ := List.isPrefixOf_iff_prefix.mp hprefix
    rw [List.drop_left, Option.some_inj] at hscan
    subst hscan
    refine ⟨h.of_suffix (List.suffix_append _ _) ?_, fun rest => ?_⟩
    · intro hnil
      rw [hnil, List.append_nil] at h
      exact hliteral (List.mem_of_getLast? h)
    · have hstill : literal.isPrefixOf (literal ++ tail' ++ rest) = true :=
        List.isPrefixOf_iff_prefix.mpr ⟨tail' ++ rest, by rw [List.append_assoc]⟩
      rw [scanLiteral, if_pos hstill, List.append_assoc, List.drop_left]
  · simp at hscan

/-- **A status code in a header is the same whatever follows the header.** -/
theorem scanStatusCode_append {code : Nat} (h : EndsLine text)
    (hscan : scanStatusCode text = some code) (rest : Bytes) :
    scanStatusCode (text ++ rest) = some code := by
  simp only [scanStatusCode, Option.bind_eq_bind, Option.bind_eq_some_iff, Prod.exists,
    Option.pure_def, Option.some_inj] at hscan
  obtain ⟨text₁, hscheme, major, text₂, hmajor, text₃, hpoint, minor, text₄, hminor, code', tail,
    hcode, rfl⟩ := hscan
  obtain ⟨h₁, hscheme⟩ := scanLiteral_append h (by decide) hscheme
  obtain ⟨h₂, hmajor⟩ := scanUnsigned_append h₁ hmajor
  obtain ⟨h₃, hpoint⟩ := scanLiteral_append h₂ (by decide) hpoint
  obtain ⟨h₄, hminor⟩ := scanUnsigned_append h₃ hminor
  have hspaced : text₄.dropWhile isSpace ≠ [] := by
    intro hnil
    simp [hnil, scanUnsigned, scanSign] at hcode
  obtain ⟨-, hcode⟩ := scanUnsigned_append (h₄.of_suffix (List.dropWhile_suffix _) hspaced) hcode
  simp only [scanStatusCode, hscheme, hmajor, hpoint, hminor, dropWhile_append_of_ne_nil hspaced,
    hcode, Option.bind_eq_bind, Option.bind_some, Option.pure_def]

/-- The text is empty or ends with a whole line. -/
def WholeLines (text : Bytes) : Prop := text = [] ∨ ∃ front, text = front ++ crlf

theorem splitLine_whole (front : Bytes) :
    ∃ line next, front ++ crlf = line ++ crlf ++ next ∧ WholeLines next ∧
      ∀ rest, splitLine (front ++ crlf ++ rest) = (line, some (next ++ rest)) := by
  induction front with
  | nil => exact ⟨[], [], rfl, Or.inl rfl, fun rest => rfl⟩
  | cons b front ih =>
    by_cases hend : crlf.isPrefixOf (b :: (front ++ crlf))
    · obtain ⟨tail, htail⟩ := List.isPrefixOf_iff_prefix.mp hend
      have htail : 13 = b ∧ 10 :: tail = front ++ crlf := List.cons.inj htail
      cases front with
      | nil => exact absurd (List.cons.inj htail.2).1 (by decide)
      | cons c front =>
        obtain ⟨rfl, hcons⟩ := htail
        obtain ⟨rfl, -⟩ := List.cons.inj hcons
        exact ⟨[], front ++ crlf, rfl, Or.inr ⟨front, rfl⟩, fun rest => rfl⟩
    · obtain ⟨line, next, hsplit, hwhole, hlines⟩ := ih
      refine ⟨b :: line, next, by rw [List.cons_append, hsplit]; rfl, hwhole, fun rest => ?_⟩
      have hstill : ¬ crlf.isPrefixOf (b :: (front ++ crlf ++ rest)) := by
        intro hprefix
        apply hend
        have hlong : crlf.length ≤ (b :: (front ++ crlf)).length := by simp [crlf]
        have hprefix := List.isPrefixOf_iff_prefix.mp hprefix
        rw [← List.cons_append] at hprefix
        exact List.isPrefixOf_iff_prefix.mpr
          (List.prefix_of_prefix_length_le hprefix (List.prefix_append _ _) hlong)
      rw [List.cons_append, List.cons_append, splitLine, if_neg hstill, hlines rest]

theorem blanksAfter_le {name line : Bytes} (h : lineNamed name line = true) :
    name.length + 1 + blanksAfter name line ≤ line.length := by
  simp only [lineNamed, Bool.and_eq_true, decide_eq_true_eq, beq_iff_eq] at h
  have hblanks := (List.takeWhile_prefix (fun b : UInt8 => b == 32 || b == 9)
    (l := line.drop (name.length + 1))).length_le
  rw [List.length_drop] at hblanks
  have hfield := h.1.1
  rw [h.1.2] at hfield
  unfold blanksAfter
  omega

theorem splitLine_some {next : Bytes} (h : (splitLine text).2 = some next) :
    text = (splitLine text).1 ++ crlf ++ next := by
  induction text with
  | nil => simp [splitLine] at h
  | cons b tail ih =>
    rw [splitLine] at h ⊢
    split
    · rename_i hend
      rw [if_pos hend] at h
      obtain ⟨after, hafter⟩ := List.isPrefixOf_iff_prefix.mp hend
      rw [← Option.some.inj h, List.nil_append, ← hafter]
      obtain ⟨-, rfl⟩ := List.cons.inj hafter
      rfl
    · rename_i hend
      rw [if_neg hend] at h
      rw [List.cons_append, List.cons_append, ← ih h]

variable {name value : Bytes}

theorem headerValueLoop_suffix {fuel : Nat}
    (h : headerValueLoop name fuel text = some value) : value <:+ text := by
  induction fuel generalizing text with
  | zero => simp [headerValueLoop] at h
  | succ fuel ih =>
    rw [headerValueLoop] at h
    split at h
    · simp at h
    · simp only at h
      split at h
      · rw [← Option.some.inj h]
        exact List.drop_suffix _ _
      · split at h
        · simp at h
        · rename_i next hnext
          refine (ih h).trans ⟨(splitLine text).1 ++ crlf, ?_⟩
          exact (splitLine_some hnext).symm

theorem headerValueLoop_append {fuel : Nat} (hwhole : WholeLines text)
    (h : headerValueLoop name fuel text = some value) :
    (∃ front, value = front ++ crlf) ∧
      ∀ rest more, headerValueLoop name (fuel + more) (text ++ rest) = some (value ++ rest) := by
  induction fuel generalizing text with
  | zero => simp [headerValueLoop] at h
  | succ fuel ih =>
    rcases hwhole with rfl | ⟨front, rfl⟩
    · simp [headerValueLoop] at h
    · obtain ⟨line, next, hsplit, hnext, hlines⟩ := splitLine_whole front
      have hne : front ++ crlf ≠ [] := by simp [crlf]
      have hline := hlines []
      rw [List.append_nil, List.append_nil] at hline
      rw [headerValueLoop, if_neg hne, hline] at h
      by_cases hnamed : lineNamed name line = true
      · simp only [hnamed, if_true, Option.some_inj] at h
        have hle := blanksAfter_le hnamed
        have hvalue :
            value = line.drop (name.length + 1 + blanksAfter name line) ++ (crlf ++ next) := by
          rw [← h, hsplit, List.append_assoc, List.drop_append_of_le_length hle]
        refine ⟨?_, ?_⟩
        · rcases hnext with rfl | ⟨after, rfl⟩
          · exact ⟨_, by rw [hvalue, List.append_nil]⟩
          · exact ⟨line.drop (name.length + 1 + blanksAfter name line) ++ (crlf ++ after), by
              rw [hvalue]
              simp⟩
        · intro rest more
          rw [Nat.add_right_comm, headerValueLoop, if_neg (by simp [crlf]), hlines rest]
          simp only [hnamed, if_true, Option.some_inj]
          rw [← h, List.drop_append_of_le_length]
          rw [hsplit, List.append_assoc, List.length_append]
          omega
      · simp only [hnamed, Bool.false_eq_true, if_false] at h
        obtain ⟨hends, hfound⟩ := ih hnext h
        refine ⟨hends, fun rest more => ?_⟩
        rw [Nat.add_right_comm, headerValueLoop, if_neg (by simp [crlf]), hlines rest]
        simp only [hnamed, Bool.false_eq_true, if_false]
        exact hfound rest more

/-- **A header line that is in the header is found whatever follows the header.** -/
theorem headerValue_append (hwhole : WholeLines text) (h : headerValue name text = some value) :
    (∃ front, value = front ++ crlf) ∧
      ∀ rest, headerValue name (text ++ rest) = some (value ++ rest) := by
  obtain ⟨hends, hfound⟩ := headerValueLoop_append hwhole h
  refine ⟨hends, fun rest => ?_⟩
  have hlength : (text ++ rest).length + 1 = text.length + 1 + rest.length := by
    rw [List.length_append]
    omega
  rw [headerValue, hlength]
  exact hfound rest rest.length

end Append

end Dcc.WebSocket
