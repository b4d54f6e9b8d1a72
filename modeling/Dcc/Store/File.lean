import Dcc.Basic
import Dcc.Lib.Decimal

/-!
# The file key-value store

A store file is a text of lines `key=value`.  Every call reads the whole file;
`set` and `delete` copy the lines of other keys into a buffer and replace the
file by it.  Line endings may be `\n` or `\r\n`, and the last line may have
none.

The file is `none` where it does not exist.  What the file system and the
allocator do in one call is an input, `Env`.  A call that fails to write leaves
the old file, since the new one is renamed over it only at the end.
-/

namespace Dcc.Store

open Decimal

/-- A C string: no NUL inside, and an object of at most `PTRDIFF_MAX` bytes with
its terminator. -/
structure CString where
  bytes : Bytes
  noNul : 0 ∉ bytes
  fits : bytes.length + 1 < 2 ^ 63

abbrev chNewline : UInt8 := 0x0a
abbrev chReturn : UInt8 := 0x0d
abbrev chEquals : UInt8 := 0x3d
abbrev chColon : UInt8 := 0x3a

/-- `dcc_store_text_has_newline`. -/
def textHasNewline (value : Bytes) : Bool := value.contains chNewline || value.contains chReturn

/-- `dcc_store_key_valid`. -/
def keyValid (key : CString) : Bool :=
  key.bytes != [] && !key.bytes.contains chEquals && !textHasNewline key.bytes

/-- `dcc_store_value_valid`. -/
def valueValid (value : CString) : Bool := !textHasNewline value.bytes

/-! ## The file system -/

/-- A step of the file system or the allocator that fails. -/
inductive Fault
  | io
  | memory
  deriving DecidableEq, Repr

def Fault.status : Fault → Status
  | .io => .runtime
  | .memory => .nomem

/-- What happens to a call: to the reading of the file, to the allocation of the
output buffer and to the writing of the file. -/
structure Env where
  read : Option Fault
  alloc : Bool
  write : Option Fault
  deriving DecidableEq, Repr

/-- Nothing fails. -/
def Env.good : Env := ⟨none, true, none⟩

/-- `dcc_store_file_read_all`: a length that `ftell` cannot report is an error. -/
def readAll (env : Env) (file : Option Bytes) : Except Status Bytes :=
  match env.read with
  | some fault => .error fault.status
  | none =>
    match file with
    | none => .error .notFound
    | some data => if 2 ^ 63 ≤ data.length then .error .runtime else .ok data

/-- `dcc_store_file_write_all`: the file afterwards and the status. -/
def writeAll (env : Env) (file : Option Bytes) (data : Bytes) : Option Bytes × Status :=
  match env.write with
  | some fault => (file, fault.status)
  | none => (some data, .ok)

/-! ## Lines -/

/-- `dcc_store_file_line_end`: the bytes of the line at the cursor, and the bytes
from its end on. -/
def lineEnd (cursor : Bytes) : Bytes × Bytes :=
  (cursor.takeWhile (· ≠ chNewline), cursor.dropWhile (· ≠ chNewline))

/-- The line without a carriage return at its end. -/
def lineContent (line : Bytes) : Bytes :=
  if line.getLast? = some chReturn then line.dropLast else line

/-- `dcc_store_file_line_matches`: the value, if the line is one of the key. -/
def lineMatches (line key : Bytes) : Option Bytes :=
  let content := lineContent line
  let eq := content.takeWhile (· ≠ chEquals)
  if eq.length = content.length ∨ eq ≠ key then none else some (content.drop (eq.length + 1))

/-- The loop of `dcc_store_file_get`: the value of the first line of the key. -/
def getLoop (key : Bytes) : Nat → Bytes → Option Bytes
  | _, [] => none
  | 0, _ :: _ => none
  | fuel + 1, c :: p =>
    let line := lineEnd (c :: p)
    match lineMatches line.1 key with
    | some value => some value
    | none => getLoop key fuel (line.2.drop 1)

/-- The loop that `dcc_store_file_set` and `dcc_store_file_delete` share: the
lines of other keys are copied to `out`; `found` tells whether one was left
out. -/
def copyLoop (key : Bytes) : Nat → Bytes → Bytes → Bool → Bytes × Bool
  | _, [], out, found => (out, found)
  | 0, _ :: _, out, found => (out, found)
  | fuel + 1, c :: p, out, found =>
    let line := lineEnd (c :: p)
    if (lineMatches line.1 key).isSome then copyLoop key fuel (line.2.drop 1) out true
    else copyLoop key fuel (line.2.drop 1) (out ++ (line.1 ++ line.2.take 1)) found

/-! ## The calls of the backend -/

/-- What a `get` reports: `*out_value_len` and the bytes copied to `out_value`. -/
structure GetResult where
  status : Status
  valueLen : Option Nat
  value : Option Bytes
  deriving DecidableEq, Repr

/-- `dcc_store_file_get`; `room` is the size of `out_value`, if there is one. -/
def fileGet (env : Env) (file : Option Bytes) (key : CString) (room : Option Nat) (wantLen : Bool) :
    GetResult :=
  match readAll env file with
  | .error status => ⟨status, none, none⟩
  | .ok data =>
    match getLoop key.bytes data.length data with
    | none => ⟨.notFound, none, none⟩
    | some value =>
      let valueLen := if wantLen then some value.length else none
      match room with
      | none => ⟨.ok, valueLen, none⟩
      | some size =>
        if size ≤ value.length then ⟨.state, valueLen, none⟩ else ⟨.ok, valueLen, some value⟩

/-- The text that `dcc_store_file_set` writes. -/
def setText (data : Bytes) (key value : CString) : Bytes :=
  let out := (copyLoop key.bytes data.length data [] false).1
  let closed := if out ≠ [] ∧ out.getLast? ≠ some chNewline then out ++ [chNewline] else out
  closed ++ (key.bytes ++ chEquals :: (value.bytes ++ [chNewline]))

/-- The size of the buffer that `dcc_store_file_set` allocates, in `size_t`. -/
def setCapacity (data : Bytes) (key value : CString) : Nat :=
  wordAdd (wordAdd (wordAdd data.length key.bytes.length) value.bytes.length) 3

/-- The test for overflow of that size. -/
def setTooLarge (data : Bytes) (key value : CString) : Bool :=
  wordSub (wordSub (wordSub wordMax key.bytes.length) value.bytes.length) 3 < data.length

/-- `dcc_store_file_set` after the file was read. -/
def setData (env : Env) (file : Option Bytes) (key value : CString) (data : Bytes) :
    Option Bytes × Status :=
  if setTooLarge data key value = true then (file, .nomem)
  else if env.alloc = false then (file, .nomem)
  else writeAll env file (setText data key value)

/-- `dcc_store_file_set`: a file that does not exist is an empty one. -/
def fileSet (env : Env) (file : Option Bytes) (key value : CString) : Option Bytes × Status :=
  match readAll env file with
  | .error status => if status = .notFound then setData env file key value [] else (file, status)
  | .ok data => setData env file key value data

/-- The text that `dcc_store_file_delete` writes, and whether the key was found;
the buffer has one byte more than the file. -/
def deleteText (data : Bytes) (key : CString) : Bytes × Bool :=
  copyLoop key.bytes data.length data [] false

/-- `dcc_store_file_delete`. -/
def fileDelete (env : Env) (file : Option Bytes) (key : CString) : Option Bytes × Status :=
  match readAll env file with
  | .error status => (file, status)
  | .ok data =>
    if env.alloc = false then (file, .nomem)
    else
      let text := deleteText data key
      if text.2 = false then (file, .notFound) else writeAll env file text.1

/-! ## The public calls -/

/-- `dcc_store_get`. -/
def storeGet (env : Env) (file : Option Bytes) (key : CString) (room : Option Nat)
    (wantLen : Bool) : GetResult :=
  if keyValid key = false then ⟨.invalidArg, none, none⟩
  else if room = none ∧ wantLen = false then ⟨.invalidArg, none, none⟩
  else fileGet env file key room wantLen

/-- `dcc_store_set`. -/
def storeSet (env : Env) (file : Option Bytes) (key value : CString) : Option Bytes × Status :=
  if keyValid key = false ∨ valueValid value = false then (file, .invalidArg)
  else fileSet env file key value

/-- `dcc_store_delete`. -/
def storeDelete (env : Env) (file : Option Bytes) (key : CString) : Option Bytes × Status :=
  if keyValid key = false then (file, .invalidArg) else fileDelete env file key

/-! ## Integers and message references -/

/-- `dcc_store_parse_u64`, on the bytes of a buffer up to its first NUL. -/
def parseU64 (value : Bytes) : Except Status Nat :=
  match readDecimal wordMax (value.takeWhile (· ≠ 0)) with
  | none => .error .invalidArg
  | some n => .ok n

/-- `dcc_store_get_u64`, with its buffer of 32 bytes. -/
def getU64 (env : Env) (file : Option Bytes) (key : CString) : Except Status Nat :=
  let result := storeGet env file key (some 32) true
  match result.status, result.value with
  | .ok, some value => if 32 ≤ value.length then .error .state else parseU64 value
  | status, _ => .error status

theorem decimalText_noNul (n : Nat) : 0 ∉ decimalText n := by
  intro hmem
  have hdigit := digit_of_mem hmem
  exact absurd hdigit.1 (by decide)

theorem length_decimalText_u64 (n : UInt64) : (decimalText n.toNat).length ≤ 20 :=
  length_decimalText_le (by decide) (Nat.lt_trans n.toNat_lt (by decide))

/-- What `snprintf` writes for `%PRIu64`. -/
def u64Text (n : UInt64) : CString where
  bytes := decimalText n.toNat
  noNul := decimalText_noNul _
  fits := by
    have := length_decimalText_u64 n
    omega

/-- `dcc_store_set_u64`, with its buffer of 32 bytes. -/
def setU64 (env : Env) (file : Option Bytes) (key : CString) (value : UInt64) :
    Option Bytes × Status :=
  let written := (u64Text value).bytes.length
  if written = 0 ∨ 32 ≤ written then (file, .runtime) else storeSet env file key (u64Text value)

/-- `dcc_managed_message_ref_t`. -/
structure MessageRef where
  channelId : UInt64
  messageId : UInt64
  deriving DecidableEq, Repr

/-- `dcc_store_load_managed_message_ref`, with its buffer of 64 bytes; the colon
is looked for up to the first NUL, the part after it is taken by its length. -/
def loadManagedMessageRef (env : Env) (file : Option Bytes) (key : CString) :
    Except Status (Nat × Nat) :=
  let result := storeGet env file key (some 64) true
  match result.status, result.value with
  | .ok, some value =>
    if 64 ≤ value.length then .error .state
    else
      let text := value.takeWhile (· ≠ 0)
      let channel := text.takeWhile (· ≠ chColon)
      if channel.length = text.length then .error .invalidArg
      else
        match readDecimal wordMax channel,
            readDecimal wordMax (value.drop (channel.length + 1)) with
        | some channelId, some messageId => .ok (channelId, messageId)
        | _, _ => .error .invalidArg
  | status, _ => .error status

/-- What `snprintf` writes for `%llu:%llu`. -/
def refText (ref : MessageRef) : CString where
  bytes := decimalText ref.channelId.toNat ++ chColon :: decimalText ref.messageId.toNat
  noNul := by
    intro hmem
    rcases List.mem_append.mp hmem with h | h
    · exact decimalText_noNul _ h
    · rcases List.mem_cons.mp h with h | h
      · exact absurd h (by decide)
      · exact decimalText_noNul _ h
  fits := by
    have hchannel := length_decimalText_u64 ref.channelId
    have hmessage := length_decimalText_u64 ref.messageId
    rw [List.length_append, List.length_cons]
    omega

/-- `dcc_store_save_managed_message_ref`, with its buffer of 64 bytes. -/
def saveManagedMessageRef (env : Env) (file : Option Bytes) (key : CString) (ref : MessageRef) :
    Option Bytes × Status :=
  let written := (refText ref).bytes.length
  if written = 0 ∨ 64 ≤ written then (file, .runtime) else storeSet env file key (refText ref)

end Dcc.Store
