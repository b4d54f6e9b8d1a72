import Dcc.Json.Dom

/-!
# The entry of the DOM parser

`dcc_json_parse` runs the stage-one scan over the whole input, parses one value
and requires that only whitespace is left.  The scan follows the quotes: outside
a string it jumps over blocks of sixteen bytes that hold nothing of interest.
The offsets it records are not read by the parser and are left out.

The strings of the tree are C strings, so a reader sees each of them up to its
first NUL (`Value.terminated`).
-/

namespace Dcc.Json

/-- Where the stage-one scan stands: the flags `in_string` and `escaped`. -/
inductive Scan
  | outside
  | inString
  | escaped
  deriving DecidableEq, Repr

/-- `dcc_json_stage1_is_structural`. -/
def isStructural (c : UInt8) : Bool :=
  c == chLBrace || c == chRBrace || c == chLBracket || c == chRBracket || c == chColon ||
    c == chComma

/-- A lane of `dcc_json_stage1_interesting_mask_16`. -/
def isInteresting (c : UInt8) : Bool := isStructural c || c == chQuote || c == chBackslash

/-- One byte of the scan; a control character in a string stops it. -/
def Scan.byte : Scan → UInt8 → Option Scan
  | .outside, c => some (if c = chQuote then .inString else .outside)
  | .escaped, _ => some .inString
  | .inString, c =>
    if c = chBackslash then some .escaped
    else if c = chQuote then some .outside
    else if c < 0x20 then none
    else some .inString

/-- The offset of the next interesting byte of a block, when the scan is outside
a string and a whole block is left. -/
def Scan.block (st : Scan) (p : Bytes) : Option (Option Nat) :=
  if st = .outside ∧ 16 ≤ p.length then some ((p.take 16).findIdx? isInteresting) else none

/-- The loop of `dcc_json_stage1_scan`. -/
def stage1Loop : Nat → Scan → Bytes → Option Scan
  | _, st, [] => some st
  | 0, _, _ :: _ => none
  | fuel + 1, st, c :: p =>
    match st.block (c :: p) with
    | some none => stage1Loop fuel st ((c :: p).drop 16)
    | some (some (skip + 1)) => stage1Loop fuel st ((c :: p).drop (skip + 1))
    | _ => (st.byte c).bind fun st' => stage1Loop fuel st' p

/-- `dcc_json_stage1_scan`. -/
def stage1Scan (input : Bytes) : Status :=
  if stage1Loop input.length .outside input = some .outside then .ok else .json

/-- A C string as its readers see it. -/
def cString (text : Bytes) : Bytes := text.takeWhile (· ≠ 0)

mutual

/-- The tree as its readers see it. -/
def Value.terminated : Value → Value
  | .null => .null
  | .bool b => .bool b
  | .number text => .number text
  | .string text => .string (cString text)
  | .array items => .array (terminatedItems items)
  | .object entries => .object (terminatedEntries entries)

def terminatedItems : List Value → List Value
  | [] => []
  | v :: vs => v.terminated :: terminatedItems vs

def terminatedEntries : List (Bytes × Value) → List (Bytes × Value)
  | [] => []
  | (key, v) :: entries => (cString key, v.terminated) :: terminatedEntries entries

end

/-- `dcc_json_parse`: the root of the tree, or the status. -/
def parse (input : Bytes) : Except Status Value :=
  if stage1Scan input ≠ .ok then .error (stage1Scan input)
  else
    match parseValue input with
    | none => .error .json
    | some (json, rest) => if skipWs rest = [] then .ok json.terminated else .error .json

end Dcc.Json
