import Mathlib.Data.List.TakeWhile
import Dcc.Basic

/-!
# Numbers from the environment

`dcc_app_env_parse_u64_strict` refuses a text that begins with a sign, and leaves the rest to
`strtoull`, which skips white space and takes a sign after it.

* `parseU64Strict_iff` — what the strict parser accepts: plain digits, and padded numbers;
* `strict_numbers` — the strict parser, and each reader built on it, is strict exactly on the texts
  that are no padded number in its range.
-/

namespace Dcc.App.Env

/-! ## The readers -/

/-- `isspace` in the C locale. -/
def isSpace (c : UInt8) : Bool := c == 0x20 || (0x09 ≤ c && c ≤ 0x0d)

def isDigit (c : UInt8) : Bool := 0x30 ≤ c && c ≤ 0x39

/-- The number of a list of digits. -/
def digitsNumber (digits : Bytes) : Nat :=
  digits.foldl (fun value c => value * 10 + (c.toNat - 0x30)) 0

/-- The optional sign in front of the digits: whether it is a minus, and what follows it. -/
def takeSign : Bytes → Bool × Bytes
  | [] => (false, [])
  | c :: rest =>
    if c = 0x2d then (true, rest) else if c = 0x2b then (false, rest) else (false, c :: rest)

/-- What `strtoull` gives back: the number, where it stopped, and whether `errno` is `ERANGE`. -/
structure Converted where
  value : Nat
  stop : Bytes
  range : Bool

/-- `strtoull` in base ten; without a digit it stops where the text begins. -/
def strtoull (text : Bytes) : Converted :=
  let signed := takeSign (text.dropWhile isSpace)
  let digits := signed.2.takeWhile isDigit
  let magnitude := digitsNumber digits
  if digits = [] then ⟨0, text, false⟩
  else if wordMax < magnitude then ⟨wordMax, signed.2.dropWhile isDigit, true⟩
  else
    ⟨if signed.1 then (wordSize - magnitude) % wordSize else magnitude,
      signed.2.dropWhile isDigit, false⟩

/-- `dcc_app_env_parse_u64_strict`. -/
def parseU64Strict (value : Bytes) : Except Status Nat :=
  if value = [] ∨ value.head? = some 0x2d ∨ value.head? = some 0x2b then .error .invalidArg
  else
    let parsed := strtoull value
    if parsed.stop = value ∨ parsed.stop ≠ [] ∨ parsed.range = true ∨ wordMax < parsed.value then
      .error .invalidArg
    else .ok parsed.value

/-- `dcc_app_env_parse_snowflake_strict`. -/
def parseSnowflakeStrict (value : Bytes) : Except Status Nat :=
  match parseU64Strict value with
  | .ok parsed => if parsed = 0 then .error .invalidArg else .ok parsed
  | .error status => .error status

/-- The environment, as `getenv` reads it. -/
abbrev Environment := Bytes → Option Bytes

variable (env : Environment)

/-- `dcc_app_env_lookup`. -/
def lookup (name : Bytes) : Except Status Bytes :=
  if name = [] then .error .invalidArg
  else
    match env name with
    | none | some [] => .error .notFound
    | some value => .ok value

/-- The readers that parse a value when there is one. -/
def getWith (parse : Bytes → Except Status Nat) (name : Bytes) : Except Status Nat :=
  match lookup env name with
  | .ok value => parse value
  | .error status => .error status

/-- The readers that have a fallback for a value that is missing. -/
def getWithOr (parse : Bytes → Except Status Nat) (name : Bytes) (fallback : Nat) :
    Except Status Nat :=
  if name = [] then .error .invalidArg
  else
    match env name with
    | none | some [] => .ok fallback
    | some value => parse value

/-- `dcc_app_env_get_u64`. -/
def getU64 : Bytes → Except Status Nat := getWith env parseU64Strict

/-- `dcc_app_env_get_u64_or`. -/
def getU64Or : Bytes → Nat → Except Status Nat := getWithOr env parseU64Strict

/-- `dcc_app_env_get_snowflake`. -/
def getSnowflake : Bytes → Except Status Nat := getWith env parseSnowflakeStrict

/-- `dcc_app_env_get_snowflake_or`. -/
def getSnowflakeOr : Bytes → Nat → Except Status Nat := getWithOr env parseSnowflakeStrict

/-- The test of both functions for 32 bits. -/
def narrow : Except Status Nat → Except Status Nat
  | .ok parsed => if 0xffffffff < parsed then .error .invalidArg else .ok parsed
  | .error status => .error status

/-- `dcc_app_env_get_u32`. -/
def getU32 (name : Bytes) : Except Status Nat := narrow (getU64 env name)

/-- `dcc_app_env_get_u32_or`. -/
def getU32Or (name : Bytes) (fallback : Nat) : Except Status Nat :=
  narrow (getU64Or env name fallback)

/-- `dcc_app_env_range_u32`. -/
def rangeU32 (value minValue maxValue : Nat) : Except Status Nat :=
  if maxValue < minValue ∨ value < minValue ∨ maxValue < value then .error .invalidArg
  else .ok value

/-- `dcc_app_env_get_u32_range`. -/
def getU32Range (name : Bytes) (minValue maxValue : Nat) : Except Status Nat :=
  match getU32 env name with
  | .ok parsed => rangeU32 parsed minValue maxValue
  | .error status => .error status

/-- `dcc_app_env_get_u32_range_or`. -/
def getU32RangeOr (name : Bytes) (fallback minValue maxValue : Nat) : Except Status Nat :=
  if name = [] then .error .invalidArg
  else
    match rangeU32 fallback minValue maxValue with
    | .error status => .error status
    | .ok fallback =>
      match env name with
      | none | some [] => .ok fallback
      | some _ => getU32Range env name minValue maxValue

/-! ## What is accepted -/

/-- The number of a text of digits only. -/
def plainNumber (text : Bytes) : Option Nat :=
  if text ≠ [] ∧ text.all isDigit then some (digitsNumber text) else none

/-- The number that white space, an optional sign and digits come to, modulo the word size; the
digits alone have to fit. -/
def paddedNumber (text : Bytes) : Option Nat :=
  let signed := takeSign (text.dropWhile isSpace)
  match plainNumber signed.2 with
  | some magnitude =>
    if text.head?.any isSpace ∧ magnitude ≤ wordMax then
      some (if signed.1 then (wordSize - magnitude) % wordSize else magnitude)
    else none
  | none => none

/-- A reader succeeds on digits whose number is in range, with that number, and on nothing else. -/
def Strict (read : Except Status Nat) (inRange : Nat → Prop) (text : Bytes) : Prop :=
  ∀ n, read = .ok n ↔ plainNumber text = some n ∧ n ≤ wordMax ∧ inRange n

/-! ## The strict parser -/

variable {text : Bytes}

theorem plainNumber_eq_some {n : Nat} :
    plainNumber text = some n ↔ text ≠ [] ∧ text.all isDigit = true ∧ digitsNumber text = n := by
  rw [plainNumber]
  split
  · next h => simp [h.1, h.2]
  · next h => grind

theorem strtoull_digits {magnitude : Nat}
    (h : plainNumber (takeSign (text.dropWhile isSpace)).2 = some magnitude) :
    strtoull text = if wordMax < magnitude then ⟨wordMax, [], true⟩
      else
        ⟨if (takeSign (text.dropWhile isSpace)).1 then (wordSize - magnitude) % wordSize
          else magnitude, [], false⟩ := by
  obtain ⟨hne, hall, hnumber⟩ := plainNumber_eq_some.mp h
  have hdigits : ∀ c ∈ (takeSign (text.dropWhile isSpace)).2, isDigit c = true :=
    List.all_eq_true.mp hall
  have htake : (takeSign (text.dropWhile isSpace)).2.takeWhile isDigit =
      (takeSign (text.dropWhile isSpace)).2 := List.takeWhile_eq_self_iff.mpr hdigits
  have hdrop : (takeSign (text.dropWhile isSpace)).2.dropWhile isDigit = [] :=
    List.dropWhile_eq_nil_iff.mpr hdigits
  simp only [strtoull, htake, hdrop, if_neg hne, hnumber]

theorem strtoull_other (h : plainNumber (takeSign (text.dropWhile isSpace)).2 = none) :
    (strtoull text).stop = text ∨ (strtoull text).stop ≠ [] := by
  by_cases hnone : (takeSign (text.dropWhile isSpace)).2.takeWhile isDigit = []
  · left
    simp only [strtoull, if_pos hnone]
  · right
    have hstop : (strtoull text).stop = (takeSign (text.dropWhile isSpace)).2.dropWhile isDigit := by
      simp only [strtoull, if_neg hnone]
      split <;> rfl
    rw [hstop]
    intro hend
    have hall : (takeSign (text.dropWhile isSpace)).2.all isDigit = true :=
      List.all_eq_true.mpr (List.dropWhile_eq_nil_iff.mp hend)
    have hne : (takeSign (text.dropWhile isSpace)).2 ≠ [] := fun hnil => hnone (by rw [hnil]; rfl)
    rw [plainNumber_eq_some.mpr ⟨hne, hall, rfl⟩] at h
    cases h

theorem parseU64Strict_unsigned (hne : text ≠ []) (hminus : text.head? ≠ some 0x2d)
    (hplus : text.head? ≠ some 0x2b) (n : Nat) :
    parseU64Strict text = .ok n ↔
      ∃ magnitude, plainNumber (takeSign (text.dropWhile isSpace)).2 = some magnitude ∧
        magnitude ≤ wordMax ∧
        (if (takeSign (text.dropWhile isSpace)).1 then (wordSize - magnitude) % wordSize
          else magnitude) = n := by
  have hstart : ¬ (text = [] ∨ text.head? = some 0x2d ∨ text.head? = some 0x2b) := by
    simp [hne, hminus, hplus]
  rw [parseU64Strict, if_neg hstart]
  cases hplain : plainNumber (takeSign (text.dropWhile isSpace)).2 with
  | none =>
    have hother := strtoull_other hplain
    rw [if_pos (by tauto)]
    simp
  | some magnitude =>
    rw [strtoull_digits hplain]
    by_cases hbig : wordMax < magnitude
    · simp [hbig, Nat.not_le.mpr hbig]
    · have hfits : (if (takeSign (text.dropWhile isSpace)).1 then
          (wordSize - magnitude) % wordSize else magnitude) ≤ wordMax := by
        have hlt : (wordSize - magnitude) % wordSize < wordSize := Nat.mod_lt _ (by decide)
        split
        · exact Nat.le_pred_of_lt hlt
        · omega
      simp [hbig, Ne.symm hne, Nat.not_lt.mpr hfits, Nat.not_lt.mp hbig]

theorem isDigit_not_isSpace {c : UInt8} (h : isSpace c = true) : isDigit c = false := by
  rw [isSpace] at h
  rw [isDigit]
  grind

/-- **What the strict parser accepts.** -/
theorem parseU64Strict_iff (text : Bytes) (n : Nat) :
    parseU64Strict text = .ok n ↔
      (plainNumber text = some n ∧ n ≤ wordMax) ∨ paddedNumber text = some n := by
  cases text with
  | nil => simp [parseU64Strict, plainNumber, paddedNumber, takeSign]
  | cons c rest =>
    by_cases hsign : c = 0x2d ∨ c = 0x2b
    · have hspace : isSpace c = false := by rcases hsign with rfl | rfl <;> rfl
      have hdigit : isDigit c = false := by rcases hsign with rfl | rfl <;> rfl
      have hplain : plainNumber (c :: rest) = none := by simp [plainNumber, hdigit]
      have hpadded : paddedNumber (c :: rest) = none := by
        rw [paddedNumber]
        split <;> simp [hspace]
      have hrefused : parseU64Strict (c :: rest) = .error .invalidArg := by
        rw [parseU64Strict, if_pos (by simpa using hsign)]
      simp [hrefused, hplain, hpadded]
    · obtain ⟨hminus, hplus⟩ := not_or.mp hsign
      rw [parseU64Strict_unsigned (List.cons_ne_nil _ _) (by simpa using hminus)
        (by simpa using hplus)]
      cases hspace : isSpace c with
      | false =>
        have hsigned : takeSign ((c :: rest).dropWhile isSpace) = (false, c :: rest) := by
          simp [List.dropWhile, hspace, takeSign, hminus, hplus]
        have hpadded : paddedNumber (c :: rest) = none := by
          rw [paddedNumber]
          split <;> simp [hspace]
        rw [hsigned, hpadded]
        simp
      | true =>
        have hplain : plainNumber (c :: rest) = none := by
          simp [plainNumber, isDigit_not_isSpace hspace]
        rw [hplain, paddedNumber]
        cases plainNumber (takeSign ((c :: rest).dropWhile isSpace)).2 with
        | none => simp
        | some magnitude =>
          by_cases hfits : magnitude ≤ wordMax
          · simp [hspace, hfits]
          · simp [hspace, hfits]

theorem plain_of_padded {n : Nat} (h : paddedNumber text = some n) :
    plainNumber text = none := by
  rw [paddedNumber] at h
  split at h
  · split at h
    · next hstart =>
      cases text with
      | nil => cases hstart.1
      | cons c rest =>
        have hspace : isSpace c = true := hstart.1
        simp [plainNumber, isDigit_not_isSpace hspace]
    · cases h
  · cases h

/-! ## The readers -/

/-- **A reader that accepts what the strict parser accepts in a range** is strict exactly on the
texts that are no padded number in it. -/
theorem strict_iff {read : Except Status Nat} {inRange : Nat → Prop}
    (h : ∀ n, read = .ok n ↔ parseU64Strict text = .ok n ∧ inRange n) :
    Strict read inRange text ↔ ∀ n, paddedNumber text = some n → ¬ inRange n := by
  constructor
  · intro hstrict n hpadded hrange
    have hread := (h n).mpr ⟨(parseU64Strict_iff text n).mpr (Or.inr hpadded), hrange⟩
    have hplain := ((hstrict n).mp hread).1
    rw [plain_of_padded hpadded] at hplain
    cases hplain
  · intro hnone n
    rw [h, parseU64Strict_iff]
    constructor
    · intro haccepted
      rcases haccepted.1 with hplain | hpadded
      · exact ⟨hplain.1, hplain.2, haccepted.2⟩
      · exact absurd haccepted.2 (hnone n hpadded)
    · intro hplain
      exact ⟨Or.inl ⟨hplain.1, hplain.2.1⟩, hplain.2.2⟩

theorem parseSnowflakeStrict_iff (text : Bytes) (n : Nat) :
    parseSnowflakeStrict text = .ok n ↔ parseU64Strict text = .ok n ∧ n ≠ 0 := by
  rw [parseSnowflakeStrict]
  cases parseU64Strict text with
  | error status => simp
  | ok parsed =>
    simp only
    split
    · next hzero => grind
    · next hzero => grind

theorem narrow_iff (read : Except Status Nat) (n : Nat) :
    narrow read = .ok n ↔ read = .ok n ∧ n ≤ 0xffffffff := by
  cases read with
  | error status => simp [narrow]
  | ok parsed =>
    rw [narrow]
    split <;> grind

theorem rangeU32_iff (value minValue maxValue n : Nat) :
    rangeU32 value minValue maxValue = .ok n ↔ value = n ∧ minValue ≤ n ∧ n ≤ maxValue := by
  rw [rangeU32]
  split <;> grind

theorem parse_nil (n : Nat) : parseU64Strict [] ≠ .ok n := by simp [parseU64Strict]

section Readers

variable {env : Environment} {parse : Bytes → Except Status Nat} {name : Bytes}

theorem getWith_iff (hname : name ≠ []) (hnil : ∀ n, parse [] ≠ .ok n) (n : Nat) :
    getWith env parse name = .ok n ↔ parse ((env name).getD []) = .ok n := by
  rw [getWith, lookup, if_neg hname]
  rcases henv : env name with _ | _ | ⟨c, rest⟩ <;> simp [hnil]

theorem getWithOr_eq (hname : name ≠ []) (hvalue : (env name).getD [] ≠ []) (fallback : Nat) :
    getWithOr env parse name fallback = parse ((env name).getD []) := by
  rw [getWithOr, if_neg hname]
  rcases henv : env name with _ | _ | ⟨c, rest⟩
  · rw [henv] at hvalue
    exact absurd rfl hvalue
  · rw [henv] at hvalue
    exact absurd rfl hvalue
  · rfl

theorem getU32_iff (hname : name ≠ []) (n : Nat) :
    getU32 env name = .ok n ↔ parseU64Strict ((env name).getD []) = .ok n ∧ n ≤ 0xffffffff := by
  rw [getU32, narrow_iff, getU64, getWith_iff hname parse_nil]

theorem getU32Range_iff (hname : name ≠ []) (minValue maxValue n : Nat) :
    getU32Range env name minValue maxValue = .ok n ↔ parseU64Strict ((env name).getD []) = .ok n ∧
        n ≤ 0xffffffff ∧ minValue ≤ n ∧ n ≤ maxValue := by
  have hget := fun parsed => @getU32_iff env name hname parsed
  rw [getU32Range]
  cases hread : getU32 env name with
  | error status =>
    have hnone := hget n
    rw [hread] at hnone
    grind
  | ok parsed =>
    have hparsed := (hget parsed).mp hread
    simp only [rangeU32_iff]
    grind

end Readers

section Readers

variable {env : Environment} {name : Bytes}

theorem parseU64Strict_strict_iff (text : Bytes) :
    Strict (parseU64Strict text) (fun _ => True) text ↔ paddedNumber text = none := by
  rw [strict_iff fun n => (and_iff_left trivial).symm]
  simp [Option.eq_none_iff_forall_ne_some]

theorem getU64_strict_iff (hname : name ≠ []) :
    Strict (getU64 env name) (fun _ => True) ((env name).getD []) ↔
      paddedNumber ((env name).getD []) = none := by
  rw [getU64, strict_iff fun n => (getWith_iff hname parse_nil n).trans (and_iff_left trivial).symm]
  simp [Option.eq_none_iff_forall_ne_some]

theorem getSnowflake_strict_iff (hname : name ≠ []) :
    Strict (getSnowflake env name) (· ≠ 0) ((env name).getD []) ↔
      ∀ n, paddedNumber ((env name).getD []) = some n → n = 0 := by
  have hnil : ∀ n, parseSnowflakeStrict [] ≠ .ok n := fun n h => by
    rw [parseSnowflakeStrict_iff] at h
    exact parse_nil n h.1
  rw [getSnowflake,
    strict_iff fun n => (getWith_iff hname hnil n).trans (parseSnowflakeStrict_iff _ n)]
  simp

/-- **With a fallback** a value that is there is read in the same way. -/
theorem fallback_unused (hname : name ≠ []) (hvalue : (env name).getD [] ≠ []) (fallback : Nat) :
    (∀ n, getU64Or env name fallback = .ok n ↔ getU64 env name = .ok n) ∧
    (∀ n, getSnowflakeOr env name fallback = .ok n ↔ getSnowflake env name = .ok n) ∧
    (∀ n, getU32Or env name fallback = .ok n ↔ getU32 env name = .ok n) ∧
    ∀ minValue maxValue, minValue ≤ fallback → fallback ≤ maxValue →
      getU32RangeOr env name fallback minValue maxValue =
        getU32Range env name minValue maxValue := by
  have hnil : ∀ n, parseSnowflakeStrict [] ≠ .ok n := fun n h => by
    rw [parseSnowflakeStrict_iff] at h
    exact parse_nil n h.1
  refine ⟨fun n => ?_, fun n => ?_, fun n => ?_, fun minValue maxValue hmin hmax => ?_⟩
  · rw [getU64Or, getWithOr_eq hname hvalue, getU64, getWith_iff hname parse_nil]
  · rw [getSnowflakeOr, getWithOr_eq hname hvalue, getSnowflake, getWith_iff hname hnil]
  · rw [getU32Or, narrow_iff, getU64Or, getWithOr_eq hname hvalue, getU32_iff hname]
  · have hrange : rangeU32 fallback minValue maxValue = .ok fallback :=
      (rangeU32_iff fallback minValue maxValue fallback).mpr ⟨rfl, hmin, hmax⟩
    rw [getU32RangeOr, if_neg hname, hrange]
    rcases henv : env name with _ | _ | ⟨c, rest⟩
    · rw [henv] at hvalue
      exact absurd rfl hvalue
    · rw [henv] at hvalue
      exact absurd rfl hvalue
    · rfl

/-- **Numbers from the environment are read strictly** exactly where the value is no padded number
that the reader would take: white space, an optional sign and digits. -/
theorem strict_numbers (hname : name ≠ []) (minValue maxValue : Nat) :
    (∀ text, Strict (parseU64Strict text) (fun _ => True) text ↔ paddedNumber text = none) ∧
    (Strict (getU64 env name) (fun _ => True) ((env name).getD []) ↔
      paddedNumber ((env name).getD []) = none) ∧
    (Strict (getSnowflake env name) (· ≠ 0) ((env name).getD []) ↔
      ∀ n, paddedNumber ((env name).getD []) = some n → n = 0) ∧
    (Strict (getU32 env name) (· ≤ 0xffffffff) ((env name).getD []) ↔
      ∀ n, paddedNumber ((env name).getD []) = some n → ¬ n ≤ 0xffffffff) ∧
    (Strict (getU32Range env name minValue maxValue)
        (fun n => n ≤ 0xffffffff ∧ minValue ≤ n ∧ n ≤ maxValue) ((env name).getD []) ↔
      ∀ n, paddedNumber ((env name).getD []) = some n →
        ¬ (n ≤ 0xffffffff ∧ minValue ≤ n ∧ n ≤ maxValue)) ∧
    ((env name).getD [] ≠ [] → ∀ fallback,
      (∀ n, getU64Or env name fallback = .ok n ↔ getU64 env name = .ok n) ∧
      (∀ n, getSnowflakeOr env name fallback = .ok n ↔ getSnowflake env name = .ok n) ∧
      (∀ n, getU32Or env name fallback = .ok n ↔ getU32 env name = .ok n) ∧
      ∀ minValue maxValue, minValue ≤ fallback → fallback ≤ maxValue →
        getU32RangeOr env name fallback minValue maxValue =
          getU32Range env name minValue maxValue) :=
  ⟨parseU64Strict_strict_iff, getU64_strict_iff hname, getSnowflake_strict_iff hname,
    strict_iff (getU32_iff hname),
    strict_iff (getU32Range_iff hname minValue maxValue), fallback_unused hname⟩

end Readers

/-! ## A padded number -/

/-- An environment with one variable. -/
def single (name value : Bytes) : Environment := fun other => if other = name then some value else none

theorem strict_numbers_plain :
    (∀ text, Strict (parseU64Strict text) (fun _ => True) text ↔ paddedNumber text = none) ∧
    (Strict (getU64 (single [78] [52, 50]) [78]) (fun _ => True)
        ((single [78] [52, 50] [78]).getD []) ↔
      paddedNumber ((single [78] [52, 50] [78]).getD []) = none) ∧
    (Strict (getSnowflake (single [78] [52, 50]) [78]) (· ≠ 0)
        ((single [78] [52, 50] [78]).getD []) ↔
      ∀ n, paddedNumber ((single [78] [52, 50] [78]).getD []) = some n → n = 0) ∧
    (Strict (getU32 (single [78] [52, 50]) [78]) (· ≤ 0xffffffff)
        ((single [78] [52, 50] [78]).getD []) ↔
      ∀ n, paddedNumber ((single [78] [52, 50] [78]).getD []) = some n → ¬ n ≤ 0xffffffff) ∧
    (Strict (getU32Range (single [78] [52, 50]) [78] 1 100)
        (fun n => n ≤ 0xffffffff ∧ 1 ≤ n ∧ n ≤ 100) ((single [78] [52, 50] [78]).getD []) ↔
      ∀ n, paddedNumber ((single [78] [52, 50] [78]).getD []) = some n →
        ¬ (n ≤ 0xffffffff ∧ 1 ≤ n ∧ n ≤ 100)) ∧
    ((single [78] [52, 50] [78]).getD [] ≠ [] → ∀ fallback,
      (∀ n, getU64Or (single [78] [52, 50]) [78] fallback = .ok n ↔
        getU64 (single [78] [52, 50]) [78] = .ok n) ∧
      (∀ n, getSnowflakeOr (single [78] [52, 50]) [78] fallback = .ok n ↔
        getSnowflake (single [78] [52, 50]) [78] = .ok n) ∧
      (∀ n, getU32Or (single [78] [52, 50]) [78] fallback = .ok n ↔
        getU32 (single [78] [52, 50]) [78] = .ok n) ∧
      ∀ minValue maxValue, minValue ≤ fallback → fallback ≤ maxValue →
        getU32RangeOr (single [78] [52, 50]) [78] fallback minValue maxValue =
          getU32Range (single [78] [52, 50]) [78] minValue maxValue) :=
  strict_numbers (by decide) 1 100

/-- ` -1` is read as the largest number there is. -/
theorem padded_accepted :
    ¬ ∀ (env : Environment) (name : Bytes) (minValue maxValue : Nat), name ≠ [] →
      Strict (getU64 env name) (fun _ => True) ((env name).getD []) ∧
      Strict (getSnowflake env name) (· ≠ 0) ((env name).getD []) ∧
      Strict (getU32 env name) (· ≤ 0xffffffff) ((env name).getD []) ∧
      Strict (getU32Range env name minValue maxValue)
        (fun n => n ≤ 0xffffffff ∧ minValue ≤ n ∧ n ≤ maxValue) ((env name).getD []) := by
  intro h
  have hplain := ((h (single [78] [0x20, 0x2d, 0x31]) [78] 0 0 (by decide)).1 wordMax).mp (by decide)
  exact absurd hplain.1 (by decide)

end Dcc.App.Env
