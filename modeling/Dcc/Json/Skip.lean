import Dcc.Json.Lexical
import Dcc.Json.Dom

/-!
# The skip functions of the field-dispatch parser

The gateway and interaction payloads are read without a tree: a field the
program does not know is passed over by `dcc_json_skip_value`.  The functions
are written separately from the DOM parser and share only the token functions.
-/

namespace Dcc.Json

/-- The member key of `dcc_json_skip_object`: a key that does not fit the
two-byte buffer is delimited again without decoding.  At the end of the input
the second attempt is not made. -/
def skipKey (cur : Bytes) : Option Bytes :=
  match parseStringBuffer cur 2 with
  | some key => some key.2
  | none => if cur = [] then some cur else (findStringEnd cur).map StringSpan.after

mutual

/-- `dcc_json_skip_value`. -/
def skipValueFuel : Nat → Bytes → Option Bytes
  | 0, _ => none
  | fuel + 1, cur =>
    match skipWs cur with
    | [] => none
    | c :: p =>
      if c = chLBrace then skipObjectFuel fuel p
      else if c = chLBracket then skipArrayFuel fuel p
      else if c = chQuote then (findStringEnd (c :: p)).map StringSpan.after
      else if c = chMinus ∨ isDigit c then (parseNumberSpan (c :: p)).map fun span => span.2.2
      else if c = 0x74 then matchLiteral (c :: p) litTrue
      else if c = 0x66 then matchLiteral (c :: p) litFalse
      else if c = 0x6e then matchLiteral (c :: p) litNull
      else none

/-- `dcc_json_skip_object`, from the byte after the opening brace. -/
def skipObjectFuel : Nat → Bytes → Option Bytes
  | 0, _ => none
  | fuel + 1, p =>
    let cur := skipWs p
    if cur.head? = some chRBrace then some (cur.drop 1)
    else skipMembersFuel fuel cur

/-- The loop of `dcc_json_skip_object`.  After a comma the next key is looked
for at once: no whitespace is passed over first. -/
def skipMembersFuel : Nat → Bytes → Option Bytes
  | 0, _ => none
  | fuel + 1, cur =>
    (skipKey cur).bind fun key =>
      match skipWs key with
      | [] => none
      | c :: p =>
        if c ≠ chColon then none
        else
          (skipValueFuel fuel p).bind fun value =>
            match skipWs value with
            | [] => none
            | d :: q =>
              if d = chRBrace then some q
              else if d ≠ chComma then none
              else skipMembersFuel fuel q

/-- `dcc_json_skip_array`, from the byte after the opening bracket. -/
def skipArrayFuel : Nat → Bytes → Option Bytes
  | 0, _ => none
  | fuel + 1, p =>
    let cur := skipWs p
    if cur.head? = some chRBracket then some (cur.drop 1)
    else skipItemsFuel fuel cur

/-- The loop of `dcc_json_skip_array`. -/
def skipItemsFuel : Nat → Bytes → Option Bytes
  | 0, _ => none
  | fuel + 1, cur =>
    (skipValueFuel fuel cur).bind fun item =>
      match skipWs item with
      | [] => none
      | d :: q =>
        if d = chRBracket then some q
        else if d ≠ chComma then none
        else skipItemsFuel fuel q

end

/-- `dcc_json_skip_value` at a cursor: the cursor after the value. -/
def skipValue (cur : Bytes) : Option Bytes := skipValueFuel (parseFuel cur) cur

end Dcc.Json
