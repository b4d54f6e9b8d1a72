import Dcc.Commands.Snapshot
import Dcc.Json.Compact
import Dcc.Lib.Decimal

/-!
# The replay log

A recorder appends one JSON object per record to a file, on a line of its own: the kind, the
timestamp, the event where there is one, and the payload as the caller spelled it.  A player
reads a line, parses it as JSON for the fields, and scans the line again for the bytes of the
payload.

The file is the list of its bytes.  Memory and the writes to the file are taken to succeed.
-/

namespace Dcc.Replay

open Json Commands

/-- `dcc_replay_kind_t`. -/
inductive Kind
  | gateway
  | interaction
  deriving DecidableEq

/-- `dcc_replay_kind_string`. -/
def kindString : Kind → Bytes
  | .gateway => asciiText "gateway"
  | .interaction => asciiText "interaction"

/-- `dcc_replay_kind_from_string`. -/
def kindFromString (text : Bytes) : Option Kind :=
  if text = asciiText "gateway" then some .gateway
  else if text = asciiText "interaction" then some .interaction
  else none

/-- `dcc_replay_record_t`; the event is a C string. -/
structure Record where
  kind : Kind
  tsMs : UInt64
  event : Option Bytes
  noNul : ∀ text, event = some text → 0 ∉ text
  payload : Bytes

/-- `DCC_REPLAY_MAX_LINE_SIZE`. -/
def maxLineSize : Nat := 8 * 1024 * 1024

/-- The line feed. -/
abbrev chNewline : UInt8 := 0x0a

/-! ## The recorder -/

/-- A digit of `%04x`. -/
def hexDigitLower (n : UInt8) : UInt8 := if n < 10 then 0x30 + n else 0x57 + n

/-- One byte of `dcc_replay_json_escape`. -/
def replayEscape (c : UInt8) : Bytes :=
  if c = chQuote then [chBackslash, chQuote]
  else if c = chBackslash then [chBackslash, chBackslash]
  else if c = 0x08 then [chBackslash, 0x62]
  else if c = 0x0c then [chBackslash, 0x66]
  else if c = 0x0a then [chBackslash, 0x6e]
  else if c = 0x0d then [chBackslash, 0x72]
  else if c = 0x09 then [chBackslash, 0x74]
  else if c < 0x20 then
    [chBackslash, 0x75, 0x30, 0x30, hexDigitLower (c >>> 4), hexDigitLower (c &&& 0x0f)]
  else [c]

/-- `dcc_replay_json_escape`. -/
def jsonEscape (text : Bytes) : Bytes := text.flatMap replayEscape

/-- The tree is an object or an array. -/
def isContainer : Value → Bool
  | .object _ | .array _ => true
  | _ => false

/-- `dcc_replay_payload_shape_ok`. -/
def payloadShapeOk (payload : Bytes) : Bool :=
  match skipWs payload with
  | [] => false
  | first :: _ =>
    if first ≠ chLBrace ∧ first ≠ chLBracket then false
    else
      match parse payload with
      | .ok json => isContainer json
      | .error _ => false

/-- The line of a record, up to its payload. -/
def lineHead (record : Record) : Bytes :=
  asciiText "\x7b\"kind\":\"" ++ kindString record.kind ++ asciiText "\",\"ts\":" ++
    Decimal.decimalText record.tsMs.toNat ++
    (match record.event with
      | some event => asciiText ",\"event\":\"" ++ jsonEscape event ++ [chQuote]
      | none => []) ++
    asciiText ",\"payload\":"

/-- The line of a record. -/
def lineText (record : Record) : Bytes := lineHead record ++ (record.payload ++ [chRBrace, chNewline])

/-- The check of `dcc_replay_recorder_write`. -/
def Record.accepted (record : Record) : Bool :=
  payloadShapeOk record.payload &&
    !(record.kind == .gateway && (record.event == none || record.event == some []))

/-- `dcc_replay_recorder_write`: the status and the file. -/
def recorderWrite (file : Bytes) (record : Record) : Status × Bytes :=
  if record.accepted then (.ok, file ++ lineText record) else (.invalidArg, file)

/-- The file after a sequence of records. -/
def recordAll (records : List Record) : Bytes :=
  records.foldl (fun file record => (recorderWrite file record).2) []

/-! ## The player -/

/-- The loop of `dcc_replay_read_line`, with `len` bytes read. -/
def readLineFrom (len : Nat) : Bytes → Except Status (Bytes × Bytes)
  | [] => .ok ([], [])
  | ch :: file =>
    if len ≥ maxLineSize then .error .nomem
    else if ch = chNewline then .ok ([ch], file)
    else (readLineFrom (len + 1) file).map fun (line, rest) => (ch :: line, rest)

/-- `dcc_replay_read_line`: the line and the rest of the file. -/
def readLine (file : Bytes) : Except Status (Bytes × Bytes) :=
  if file = [] then .error .canceled else readLineFrom 0 file

/-- The loop of `dcc_replay_skip_string`, after the opening quote. -/
def skipStringBody : Bytes → Option Bytes
  | [] => none
  | c :: p =>
    if c = chBackslash then
      match p with
      | [] => none
      | _ :: q => skipStringBody q
    else if c = chQuote then some p
    else skipStringBody p

/-- `dcc_replay_skip_string`. -/
def skipString : Bytes → Option Bytes
  | [] => none
  | c :: p => if c = chQuote then skipStringBody p else none

theorem skipStringBody_length {p q : Bytes} (h : skipStringBody p = some q) :
    q.length < p.length := by
  fun_induction skipStringBody p with
  | case1 => cases h
  | case2 => cases h
  | case3 d p ih =>
    have hrest := ih h
    simp only [List.length_cons]
    omega
  | case4 p => simp_all
  | case5 c p hback hquote ih =>
    have hrest := ih h
    simp only [List.length_cons]
    omega

/-- `sizeof(stack)` in `dcc_replay_skip_value`. -/
def stackSize : Nat := 128

/-- The loop of `dcc_replay_skip_value` over an object or array, with the brackets that are
open, the innermost first. -/
def skipNested (stack : List UInt8) (p : Bytes) : Option Bytes :=
  match stack, p with
  | [], p => some p
  | _ :: _, [] => none
  | bracket :: stack, c :: p =>
    if c = chQuote then
      match _hskip : skipStringBody p with
      | none => none
      | some q => skipNested (bracket :: stack) q
    else if c = chLBrace ∨ c = chLBracket then
      if (bracket :: stack).length ≥ stackSize then none
      else skipNested (c :: bracket :: stack) p
    else if c = chRBrace ∨ c = chRBracket then
      if (c = chRBrace ∧ bracket ≠ chLBrace) ∨ (c = chRBracket ∧ bracket ≠ chLBracket) then none
      else skipNested stack p
    else skipNested (bracket :: stack) p
termination_by p.length
decreasing_by
  · have hlt := skipStringBody_length _hskip
    simp only [List.length_cons]
    omega
  all_goals simp

/-- `dcc_replay_skip_value`. -/
def skipValue (p : Bytes) : Option Bytes :=
  match skipWs p with
  | [] => none
  | c :: p =>
    if c = chQuote then skipString (c :: p)
    else if c ≠ chLBrace ∧ c ≠ chLBracket then
      some ((c :: p).dropWhile fun d => d ≠ chComma && d ≠ chRBrace)
    else skipNested [c] p

/-- The loop of `dcc_replay_payload_span`: where the payload begins and where it ends. -/
def payloadSpanFrom : Nat → Bytes → Option (Bytes × Bytes)
  | 0, _ => none
  | fuel + 1, p => do
      let p := skipWs p
      let afterKey ← skipString p
      let key := (p.drop 1).take (p.length - afterKey.length - 2)
      match skipWs afterKey with
      | [] => none
      | c :: p =>
        if c ≠ chColon then none
        else do
          let valueBegin := skipWs p
          let valueEnd ← skipValue valueBegin
          if key = asciiText "payload" then some (valueBegin, valueEnd)
          else
            match skipWs valueEnd with
            | [] => none
            | c :: p => if c ≠ chComma then none else payloadSpanFrom fuel p

/-- `dcc_replay_payload_span`; a line has fewer members than bytes. -/
def payloadSpan (line : Bytes) : Option (Bytes × Bytes) :=
  match skipWs line with
  | [] => none
  | c :: p => if c ≠ chLBrace then none else payloadSpanFrom line.length p

/-- `dcc_replay_parse_line`. -/
def parseLine (line : Bytes) : Except Status Record :=
  match parse line with
  | .error _ => .error .json
  | .ok root =>
    match root with
    | .object _ =>
      let payload := objectGet root (asciiText "payload")
      let eventValue := objectGet root (asciiText "event")
      match jsonString (objectGet root (asciiText "kind")),
          jsonU64 (objectGet root (asciiText "ts")) with
      | some kind, some tsMs =>
        if payload.any isContainer then
          match kindFromString kind with
          | none => .error .json
          | some kind =>
            let event := jsonString eventValue
            if (eventValue.isSome ∧ event = none) ∨
                (kind = .gateway ∧ (event = none ∨ event = some [])) then .error .json
            else
              match payloadSpan line with
              | none => .error .json
              | some (payloadBegin, payloadEnd) =>
                .ok
                  { kind
                    tsMs := UInt64.ofNat tsMs
                    event := event.map cString
                    noNul := by
                      intro text htext hzero
                      obtain ⟨raw, -, rfl⟩ := Option.map_eq_some_iff.mp htext
                      have := List.mem_takeWhile_imp hzero
                      simp at this
                    payload :=
                      payloadBegin.take (payloadBegin.length - payloadEnd.length) }
        else .error .json
      | _, _ => .error .json
    | _ => .error .json

/-- `dcc_replay_player_next`: the record and the rest of the file. -/
def playerNext (file : Bytes) : Except Status (Record × Bytes) := do
  let (line, rest) ← readLine file
  let record ← parseLine line
  return (record, rest)

/-- The records that `dcc_replay_player_next` gives until it fails, and its last status. -/
def playFrom : Nat → Bytes → List Record × Status
  | 0, _ => ([], .runtime)
  | fuel + 1, file =>
    match playerNext file with
    | .error status => ([], status)
    | .ok (record, rest) =>
      let (records, status) := playFrom fuel rest
      (record :: records, status)

/-- All that a player gives; each record takes a byte at least. -/
def play (file : Bytes) : List Record × Status := playFrom (file.length + 1) file

end Dcc.Replay
