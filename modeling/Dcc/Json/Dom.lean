import Dcc.Json.Lexical

/-!
# The DOM parser

`dcc_json_parse_value` builds a tree in an arena.  Arena allocation is taken to
succeed, so the only failure is malformed input.  The nested calls and the two
member loops share one `fuel`; `parseValue` starts it at `parseFuel`, which is
enough for every input (`Dcc.Json.parse_ok_iff`).
-/

namespace Dcc.Json

/-- `dcc_json_t`: numbers keep their spelling, objects their member order. -/
inductive Value
  | null
  | bool (boolean : Bool)
  | number (text : Bytes)
  | string (text : Bytes)
  | array (items : List Value)
  | object (entries : List (Bytes × Value))

/-- A value that is one literal. -/
def parseLiteral (cur literal : Bytes) (json : Value) : Option (Value × Bytes) :=
  (matchLiteral cur literal).map fun rest => (json, rest)

/-- `dcc_json_parse_number`. -/
def parseNumber (cur : Bytes) : Option (Value × Bytes) :=
  (parseNumberSpan cur).map fun span => (.number span.1, span.2.2)

/-- The string branch of `dcc_json_parse_value`. -/
def parseString (cur : Bytes) : Option (Value × Bytes) :=
  (parseStringArena cur).map fun r => (.string r.1, r.2)

mutual

/-- `dcc_json_parse_value`. -/
def parseValueFuel : Nat → Bytes → Option (Value × Bytes)
  | 0, _ => none
  | fuel + 1, cur =>
    match skipWs cur with
    | [] => none
    | c :: p =>
      if c = chLBrace then parseObjectFuel fuel p
      else if c = chLBracket then parseArrayFuel fuel p
      else if c = chQuote then parseString (c :: p)
      else if c = chMinus ∨ isDigit c then parseNumber (c :: p)
      else if c = 0x74 then parseLiteral (c :: p) litTrue (.bool true)
      else if c = 0x66 then parseLiteral (c :: p) litFalse (.bool false)
      else if c = 0x6e then parseLiteral (c :: p) litNull .null
      else none

/-- `dcc_json_parse_object`, from the byte after the opening brace. -/
def parseObjectFuel : Nat → Bytes → Option (Value × Bytes)
  | 0, _ => none
  | fuel + 1, p =>
    let cur := skipWs p
    if cur.head? = some chRBrace then some (.object [], cur.drop 1)
    else parseMembersFuel fuel cur []

/-- The loop of `dcc_json_parse_object` with the members pushed so far. -/
def parseMembersFuel : Nat → Bytes → List (Bytes × Value) → Option (Value × Bytes)
  | 0, _, _ => none
  | fuel + 1, cur, entries =>
    (parseStringArena cur).bind fun key =>
      match skipWs key.2 with
      | [] => none
      | c :: p =>
        if c ≠ chColon then none
        else
          (parseValueFuel fuel p).bind fun value =>
            match skipWs value.2 with
            | [] => none
            | d :: q =>
              if d = chRBrace then some (.object (entries ++ [(key.1, value.1)]), q)
              else if d ≠ chComma then none
              else parseMembersFuel fuel (skipWs q) (entries ++ [(key.1, value.1)])

/-- `dcc_json_parse_array`, from the byte after the opening bracket. -/
def parseArrayFuel : Nat → Bytes → Option (Value × Bytes)
  | 0, _ => none
  | fuel + 1, p =>
    let cur := skipWs p
    if cur.head? = some chRBracket then some (.array [], cur.drop 1)
    else parseItemsFuel fuel cur []

/-- The loop of `dcc_json_parse_array` with the items pushed so far. -/
def parseItemsFuel : Nat → Bytes → List Value → Option (Value × Bytes)
  | 0, _, _ => none
  | fuel + 1, cur, items =>
    (parseValueFuel fuel cur).bind fun item =>
      match skipWs item.2 with
      | [] => none
      | d :: q =>
        if d = chRBracket then some (.array (items ++ [item.1]), q)
        else if d ≠ chComma then none
        else parseItemsFuel fuel (skipWs q) (items ++ [item.1])

end

/-- Nested calls and loop rounds that `cur` can need: a byte that opens an
array costs three. -/
def parseFuel (cur : Bytes) : Nat := 3 * cur.length + 1

/-- `dcc_json_parse_value` at a cursor: the value and the cursor after it. -/
def parseValue (cur : Bytes) : Option (Value × Bytes) := parseValueFuel (parseFuel cur) cur

end Dcc.Json
