import Dcc.Basic

/-!
# Tokens of the JSON parsers

The two recursive-descent parsers of the library, the DOM parser and the
field-dispatch parser with its skip functions, share one set of token
functions: whitespace, literals, string delimiting and decoding, UTF-8
validation and number spans.  A parser is its cursor, and the cursor is the
list of the bytes that are left, so a token function takes the bytes at the
cursor and returns the bytes after the token.

The loops that do not walk a list one cell at a time carry a `fuel` argument;
the callers pass the number of bytes left, which every round of such a loop
lowers.
-/

namespace Dcc.Json

abbrev chQuote : UInt8 := 0x22
abbrev chBackslash : UInt8 := 0x5c
abbrev chComma : UInt8 := 0x2c
abbrev chColon : UInt8 := 0x3a
abbrev chMinus : UInt8 := 0x2d
abbrev chPlus : UInt8 := 0x2b
abbrev chDot : UInt8 := 0x2e
abbrev chZero : UInt8 := 0x30
abbrev chNine : UInt8 := 0x39
abbrev chLBrace : UInt8 := 0x7b
abbrev chRBrace : UInt8 := 0x7d
abbrev chLBracket : UInt8 := 0x5b
abbrev chRBracket : UInt8 := 0x5d

/-- The four whitespace bytes of JSON. -/
def isWs (c : UInt8) : Bool := c == 0x20 || c == 0x09 || c == 0x0a || c == 0x0d

/-- The decimal digits; `isdigit` in the C locale. -/
def isDigit (c : UInt8) : Bool := chZero ≤ c && c ≤ chNine

/-- `dcc_json_skip_ws`. -/
def skipWs (cur : Bytes) : Bytes := cur.dropWhile isWs

/-- `dcc_json_match_literal`: the cursor after `literal`. -/
def matchLiteral (cur literal : Bytes) : Option Bytes :=
  if literal.isPrefixOf cur then some (cur.drop literal.length) else none

def litTrue : Bytes := [0x74, 0x72, 0x75, 0x65]
def litFalse : Bytes := [0x66, 0x61, 0x6c, 0x73, 0x65]
def litNull : Bytes := [0x6e, 0x75, 0x6c, 0x6c]

/-- `dcc_json_hex_value`. -/
def hexValue (c : UInt8) : Option Nat :=
  if 0x30 ≤ c && c ≤ 0x39 then some (c.toNat - 0x30)
  else if 0x61 ≤ c && c ≤ 0x66 then some (c.toNat - 0x61 + 10)
  else if 0x41 ≤ c && c ≤ 0x46 then some (c.toNat - 0x41 + 10)
  else none

/-- `dcc_json_parse_hex4_at`: the callers check that four bytes are left. -/
def parseHex4At (p : Bytes) : Option Nat :=
  (p.take 4).foldlM (fun value c => (hexValue c).map fun h => (value <<< 4) ||| h) 0

/-- A UTF-8 continuation byte. -/
def isCont (c : UInt8) : Bool := c &&& 0xc0 == 0x80

/-- A second byte limited to a range, as after `e0`, `ed`, `f0` and `f4`. -/
def inRange (lo hi c : UInt8) : Bool := lo ≤ c && c ≤ hi

/-- The bytes after a lead byte, one test for each. -/
def utf8Tail : List (UInt8 → Bool) → Bytes → Option Bytes
  | [], p => some p
  | _ :: _, [] => none
  | test :: tests, c :: p => if test c then utf8Tail tests p else none

/-- `dcc_json_utf8_scan_one`: the cursor after one well-formed code point. -/
def utf8ScanOne : Bytes → Option Bytes
  | [] => none
  | c0 :: p =>
    if c0 ≤ 0x7f then
      if c0 < 0x20 then none else some p
    else if 0xc2 ≤ c0 ∧ c0 ≤ 0xdf then utf8Tail [isCont] p
    else if c0 = 0xe0 then utf8Tail [inRange 0xa0 0xbf, isCont] p
    else if 0xe1 ≤ c0 ∧ c0 ≤ 0xec then utf8Tail [isCont, isCont] p
    else if c0 = 0xed then utf8Tail [inRange 0x80 0x9f, isCont] p
    else if 0xee ≤ c0 ∧ c0 ≤ 0xef then utf8Tail [isCont, isCont] p
    else if c0 = 0xf0 then utf8Tail [inRange 0x90 0xbf, isCont, isCont] p
    else if 0xf1 ≤ c0 ∧ c0 ≤ 0xf3 then utf8Tail [isCont, isCont, isCont] p
    else if c0 = 0xf4 then utf8Tail [inRange 0x80 0x8f, isCont, isCont] p
    else none

/-- The escapes of one letter: `"`, `\`, `/`, `b`, `f`, `n`, `r`, `t`. -/
def isShortEscape (esc : UInt8) : Bool :=
  esc == chQuote || esc == chBackslash || esc == 0x2f || esc == 0x62 || esc == 0x66 ||
    esc == 0x6e || esc == 0x72 || esc == 0x74

/-- The loop of `dcc_json_find_string_end`: the cursor at the closing quote and
whether an escape was seen. -/
def findStringEndLoop : Nat → Bytes → Bool → Option (Bytes × Bool)
  | 0, _, _ => none
  | _ + 1, [], _ => none
  | fuel + 1, c :: p, escaped =>
    if c = chQuote then some (c :: p, escaped)
    else if c < 0x20 then none
    else if c = chBackslash then
      match p with
      | [] => none
      | esc :: q =>
        if isShortEscape esc then findStringEndLoop fuel q true
        else if esc = 0x75 then
          if q.length < 4 || (parseHex4At q).isNone then none
          else findStringEndLoop fuel (q.drop 4) true
        else none
    else if 0x80 ≤ c then
      match utf8ScanOne (c :: p) with
      | none => none
      | some q => findStringEndLoop fuel q escaped
    else findStringEndLoop fuel p escaped

/-- What `dcc_json_find_string_end` reports: the cursors after the opening and
at the closing quote, and the escape flag. -/
structure StringSpan where
  rawStart : Bytes
  rawEnd : Bytes
  escaped : Bool
  deriving DecidableEq, Repr

namespace StringSpan

/-- The bytes between the quotes. -/
def raw (span : StringSpan) : Bytes :=
  span.rawStart.take (span.rawStart.length - span.rawEnd.length)

/-- The cursor `end + 1`, after the closing quote. -/
def after (span : StringSpan) : Bytes := span.rawEnd.drop 1

end StringSpan

/-- `dcc_json_find_string_end`. -/
def findStringEnd : Bytes → Option StringSpan
  | [] => none
  | c :: p =>
    if c = chQuote then
      (findStringEndLoop p.length p false).map fun r => ⟨p, r.1, r.2⟩
    else none

/-- `dcc_json_utf8_append` with `room` bytes left in the output. -/
def utf8Append (room codepoint : Nat) : Option Bytes :=
  let tmp : Option Bytes :=
    if codepoint ≤ 0x7f then some [UInt8.ofNat codepoint]
    else if codepoint ≤ 0x7ff then
      some [UInt8.ofNat (0xc0 ||| ((codepoint >>> 6) &&& 0x1f)),
        UInt8.ofNat (0x80 ||| (codepoint &&& 0x3f))]
    else if codepoint ≤ 0xffff then
      if 0xd800 ≤ codepoint && codepoint ≤ 0xdfff then none
      else
        some [UInt8.ofNat (0xe0 ||| ((codepoint >>> 12) &&& 0x0f)),
          UInt8.ofNat (0x80 ||| ((codepoint >>> 6) &&& 0x3f)),
          UInt8.ofNat (0x80 ||| (codepoint &&& 0x3f))]
    else if codepoint ≤ 0x10ffff then
      some [UInt8.ofNat (0xf0 ||| ((codepoint >>> 18) &&& 0x07)),
        UInt8.ofNat (0x80 ||| ((codepoint >>> 12) &&& 0x3f)),
        UInt8.ofNat (0x80 ||| ((codepoint >>> 6) &&& 0x3f)),
        UInt8.ofNat (0x80 ||| (codepoint &&& 0x3f))]
    else none
  tmp.bind fun bytes => if room < bytes.length then none else some bytes

/-- The byte a one-letter escape stands for. -/
def shortEscapeByte (esc : UInt8) : UInt8 :=
  if esc = 0x62 then 0x08
  else if esc = 0x66 then 0x0c
  else if esc = 0x6e then 0x0a
  else if esc = 0x72 then 0x0d
  else if esc = 0x74 then 0x09
  else esc

/-- The code point of a `\u` escape whose four digits start at `p`, with the
second half of a surrogate pair, and the cursor after it. -/
def decodeUnicodeEscape (p : Bytes) : Option (Nat × Bytes) :=
  if p.length < 4 then none
  else
    (parseHex4At p).bind fun cp =>
      let q := p.drop 4
      if 0xd800 ≤ cp && cp ≤ 0xdbff then
        if q.length < 6 || q.take 2 != [chBackslash, 0x75] then none
        else
          (parseHex4At (q.drop 2)).bind fun low =>
            if low < 0xdc00 || 0xdfff < low then none
            else some (0x10000 + (((cp - 0xd800) <<< 10) ||| (low - 0xdc00)), q.drop 6)
      else if 0xdc00 ≤ cp && cp ≤ 0xdfff then none
      else some (cp, q)

/-- The loop of `dcc_json_decode_string_span` with `room` output bytes left,
the terminating NUL included. -/
def decodeStringLoop : Nat → Bytes → Nat → Option Bytes
  | _, [], room => if room = 0 then none else some []
  | 0, _ :: _, _ => none
  | fuel + 1, c :: p, room =>
    if c ≠ chBackslash then
      if room = 0 then none else (decodeStringLoop fuel p (room - 1)).map (c :: ·)
    else
      match p with
      | [] => none
      | esc :: q =>
        if isShortEscape esc then
          if room = 0 then none
          else (decodeStringLoop fuel q (room - 1)).map (shortEscapeByte esc :: ·)
        else if esc = 0x75 then
          (decodeUnicodeEscape q).bind fun r =>
            (utf8Append room r.1).bind fun bytes =>
              (decodeStringLoop fuel r.2 (room - bytes.length)).map (bytes ++ ·)
        else none

/-- `dcc_json_decode_string_span` into a buffer of `outCap` bytes. -/
def decodeStringSpan (span : Bytes) (outCap : Nat) : Option Bytes :=
  decodeStringLoop span.length span outCap

/-- `dcc_json_parse_string_arena`: the arena copy has room for the raw span and
a NUL. -/
def parseStringArena (cur : Bytes) : Option (Bytes × Bytes) :=
  (findStringEnd cur).bind fun span =>
    if span.escaped then
      (decodeStringSpan span.raw (span.raw.length + 1)).map fun text => (text, span.after)
    else some (span.raw, span.after)

/-- `dcc_json_parse_string_buffer` into a caller's buffer of `outCap` bytes. -/
def parseStringBuffer (cur : Bytes) (outCap : Nat) : Option (Bytes × Bytes) :=
  if outCap = 0 then none
  else
    (findStringEnd cur).bind fun span =>
      if span.escaped then
        (decodeStringSpan span.raw outCap).map fun text => (text, span.after)
      else if outCap ≤ span.raw.length then none
      else some (span.raw, span.after)

/-- `dcc_json_is_number_char`. -/
def isNumberChar (c : UInt8) : Bool :=
  isDigit c || c == chMinus || c == chPlus || c == chDot || c == 0x65 || c == 0x45

/-- One or more digits, as after a decimal point or an exponent sign. -/
def digits1 (cur : Bytes) : Option Bytes :=
  if cur.head?.any isDigit then some (cur.dropWhile isDigit) else none

/-- The integer part: a lone zero, or digits that do not start with one. -/
def numberInteger : Bytes → Option Bytes
  | [] => none
  | c :: p =>
    if c = chZero then some p
    else if isDigit c then some ((c :: p).dropWhile isDigit)
    else none

/-- The optional fraction, with the flag that the number is still an integer. -/
def numberFraction (cur : Bytes) (integer : Bool) : Option (Bytes × Bool) :=
  if cur.head? = some chDot then (digits1 (cur.drop 1)).map fun q => (q, false)
  else some (cur, integer)

/-- The optional exponent. -/
def numberExponent (cur : Bytes) (integer : Bool) : Option (Bytes × Bool) :=
  if cur.head? = some 0x65 ∨ cur.head? = some 0x45 then
    let p := cur.drop 1
    let q := if p.head? = some chPlus ∨ p.head? = some chMinus then p.drop 1 else p
    (digits1 q).map fun r => (r, false)
  else some (cur, integer)

/-- `dcc_json_parse_number_span`: the number's text, whether it is written as an
integer, and the cursor after it. -/
def parseNumberSpan (start : Bytes) : Option (Bytes × Bool × Bytes) :=
  let p := if start.head? = some chMinus then start.drop 1 else start
  (numberInteger p).bind fun q =>
    (numberFraction q true).bind fun f =>
      (numberExponent f.1 f.2).bind fun e =>
        if e.1.head?.any isNumberChar then none
        else some (start.take (start.length - e.1.length), e.2, e.1)

end Dcc.Json
