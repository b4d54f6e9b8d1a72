import Dcc.Basic
import Dcc.Lib.Slots

/-!
# The interaction server: one HTTP request

The server looks up the route of a request, checks the signature over the timestamp text
and the body, the freshness of the timestamp against the wall clock, and a table of the
requests it has seen, timed by the monotonic clock; then it parses the payload and passes
the request to the route or to the callback of the server.

Ed25519 and SHA-256 are OpenSSL's: the verification is a predicate on the bytes of the key,
the bytes of the signature and the message, and the digest a function.  The parser of the
payload is a function of the body as well.
-/

namespace Dcc.Interactions

variable {δ : Type} [DecidableEq δ]

/-- `dcc_interaction_hex_value`. -/
def hexValue (ch : UInt8) : Option Nat :=
  if 48 ≤ ch ∧ ch ≤ 57 then some (ch.toNat - 48)
  else if 97 ≤ ch ∧ ch ≤ 102 then some (ch.toNat - 97 + 10)
  else if 65 ≤ ch ∧ ch ≤ 70 then some (ch.toNat - 65 + 10)
  else none

/-- The loop of `dcc_interaction_hex_decode_exact`. -/
def hexDecode : Bytes → Option Bytes
  | [] => some []
  | [_] => none
  | hi :: lo :: rest =>
    match hexValue hi, hexValue lo with
    | some hi, some lo => (hexDecode rest).map (UInt8.ofNat (hi * 16 + lo) :: ·)
    | _, _ => none

/-- `dcc_interaction_hex_decode_exact`. -/
def hexDecodeExact (hex : Bytes) (outLen : Nat) : Option Bytes :=
  if hex.length ≠ outLen * 2 then none else hexDecode hex

/-- `dcc_interaction_ascii_lower`. -/
def asciiLower (ch : UInt8) : UInt8 := if 65 ≤ ch ∧ ch ≤ 90 then ch + 32 else ch

/-- `dcc_interaction_ascii_eq`. -/
def asciiEq (left right : Bytes) : Bool := left.map asciiLower == right.map asciiLower

/-- `dcc_interaction_route_entry_t`; `callback` says which callback it is. -/
structure RouteEntry where
  method : Bytes
  path : Bytes
  unsigned : Bool
  isPrefix : Bool
  callback : Nat

/-- `dcc_interaction_request_t`, as it was read. -/
structure Request where
  method : Bytes
  path : Bytes
  headers : List (Bytes × Bytes)
  body : Bytes

/-- What OpenSSL and the parser of the payload compute. -/
structure Crypto (δ : Type) where
  verify : Bytes → Bytes → Bytes → Bool
  sha256 : Bytes → δ
  isInteraction : Bytes → Bool

/-- The fields of `dcc_interaction_server_t` that a request reads. -/
structure Config where
  publicKeyHex : Bytes
  replayWindowMs : Nat
  routes : List RouteEntry
  callback : Bool

/-- `dcc_interaction_replay_entry_t`; a slot that is not occupied is `none`. -/
structure ReplayEntry (δ : Type) where
  digest : δ
  seenAtNs : Nat
  deriving DecidableEq

/-- `DCC_INTERACTION_REPLAY_CAP`. -/
def replayCap : Nat := 1024

/-- `dcc_interaction_find_route`. -/
def findRoute (routes : List RouteEntry) (request : Request) : Option RouteEntry :=
  routes.find? fun route =>
    asciiEq route.method request.method && !route.isPrefix && route.path == request.path

/-- `dcc_interaction_find_prefix_route`. -/
def findPrefixRoute (routes : List RouteEntry) (request : Request) : Option RouteEntry :=
  routes.find? fun route =>
    asciiEq route.method request.method && route.isPrefix && route.path.isPrefixOf request.path

/-- `dcc_interaction_has_signed_route_for_method`. -/
def hasSignedRouteForMethod (routes : List RouteEntry) (method : Bytes) : Bool :=
  routes.any fun route => !route.unsigned && asciiEq route.method method

/-- `dcc_interaction_request_header`. -/
def Request.header (request : Request) (name : String) : Option Bytes :=
  (request.headers.find? fun header => asciiEq header.1 (asciiText name)).map Prod.snd

/-- `dcc_interaction_verify_signature`. -/
def verifySignature (crypto : Crypto δ) (publicKeyHex timestamp body signatureHex : Bytes) :
    Bool :=
  match hexDecodeExact publicKeyHex 32, hexDecodeExact signatureHex 64 with
  | some publicKey, some signature => crypto.verify publicKey signature (timestamp ++ body)
  | _, _ => false

/-- The loop of `dcc_interaction_parse_unix_timestamp`. -/
def parseUnixDigits (value : Nat) : Bytes → Option Nat
  | [] => some value
  | ch :: rest =>
    if ch < 48 ∨ ch > 57 then none
    else
      let digit := ch.toNat - 48
      if value > (wordMax - digit) / 10 then none else parseUnixDigits (value * 10 + digit) rest

/-- `dcc_interaction_parse_unix_timestamp`. -/
def parseUnixTimestamp (timestamp : Bytes) : Option Nat :=
  if timestamp = [] then none else parseUnixDigits 0 timestamp

/-- `dcc_interaction_server_timestamp_fresh`, where `time` returns `currentTime`. -/
def timestampFresh (replayWindowMs : Nat) (currentTime : Int) (timestamp : Bytes) : Bool :=
  if replayWindowMs = 0 then false
  else
    match parseUnixTimestamp timestamp with
    | none => false
    | some signedAt =>
      if currentTime < 0 then false
      else
        let current := currentTime.toNat
        let deltaSeconds := if signedAt > current then signedAt - current else current - signedAt
        if deltaSeconds > wordMax / 1000 then false
        else decide (deltaSeconds * 1000 ≤ replayWindowMs)

/-- `dcc_interaction_replay_digest`. -/
def replayDigest (crypto : Crypto δ) (timestamp signature : Bytes) : Option δ :=
  if timestamp.length > 32 ∨ signature.length > 128 then none
  else some (crypto.sha256 (timestamp ++ 0 :: signature))

/-- The status of `dcc_interaction_server_replay_seen`. -/
inductive ReplayStatus
  | new
  | seen
  | capacity
  deriving DecidableEq

/-- An entry is older than the window. -/
def ReplayEntry.expired (nowNs windowNs : Nat) (entry : ReplayEntry δ) : Bool :=
  decide (nowNs ≥ entry.seenAtNs ∧ nowNs - entry.seenAtNs > windowNs)

/-- The loop of `dcc_interaction_server_replay_seen` from `index`: the table with the expired
entries cleared, whether it stopped at the digest, and the first free slot before that. -/
def replayScan (nowNs windowNs : Nat) (digest : δ) :
    List (Option (ReplayEntry δ)) → Nat → Option Nat →
      List (Option (ReplayEntry δ)) × Bool × Option Nat
  | [], _, free => ([], false, free)
  | none :: entries, index, free =>
    let (entries, seen, free) :=
      replayScan nowNs windowNs digest entries (index + 1) (free.or (some index))
    (none :: entries, seen, free)
  | some entry :: entries, index, free =>
    if entry.expired nowNs windowNs then
      let (entries, seen, free) :=
        replayScan nowNs windowNs digest entries (index + 1) (free.or (some index))
      (none :: entries, seen, free)
    else if entry.digest = digest then (some entry :: entries, true, free)
    else
      let (entries, seen, free) := replayScan nowNs windowNs digest entries (index + 1) free
      (some entry :: entries, seen, free)

/-- `dcc_interaction_server_replay_seen`. -/
def replaySeen (crypto : Crypto δ) (replayWindowMs nowNs : Nat) (timestamp signature : Bytes)
    (entries : List (Option (ReplayEntry δ))) : ReplayStatus × List (Option (ReplayEntry δ)) :=
  if replayWindowMs = 0 then (.new, entries)
  else
    match replayDigest crypto timestamp signature with
    | none => (.new, entries)
    | some digest =>
      match replayScan nowNs (replayWindowMs * 1000000) digest entries 0 none with
      | (entries, true, _) => (.seen, entries)
      | (entries, false, none) => (.capacity, entries)
      | (entries, false, some free) => (.new, entries.set free (some ⟨digest, nowNs⟩))

/-- What becomes of a request: an answer of the server itself, a failure of the allocation,
a call of an unsigned route, or a call of a signed route or of the callback of the server.
`answer` stands for a payload that nobody handles. -/
inductive Outcome
  | reply (status : Nat) (text : String)
  | nomem
  | unsigned (callback : Nat)
  | route (callback : Nat)
  | callback
  | answer
  deriving DecidableEq

/-- The request was passed to a signed route or to the callback of the server. -/
def Outcome.handled : Outcome → Bool
  | .route _ | .callback => true
  | _ => false

/-- A request, the two clocks while it is checked, and whether there is memory for its
payload. -/
structure Arrival where
  request : Request
  wallTime : Int
  nowNs : Nat
  payloadAllocated : Bool

/-- The end of `dcc_interaction_handle_request`, for a request that is not a replay. -/
def dispatchPayload (crypto : Crypto δ) (config : Config) (arrival : Arrival)
    (route : Option RouteEntry) : Outcome :=
  if !arrival.payloadAllocated then .nomem
  else if !crypto.isInteraction arrival.request.body then .reply 400 "Invalid interaction payload"
  else
    match route with
    | some route => .route route.callback
    | none => if config.callback then .callback else .answer

/-- `dcc_interaction_handle_request`. -/
def handleRequest (crypto : Crypto δ) (config : Config) (arrival : Arrival)
    (entries : List (Option (ReplayEntry δ))) : Outcome × List (Option (ReplayEntry δ)) :=
  let request := arrival.request
  let route := (findRoute config.routes request).or (findPrefixRoute config.routes request)
  match route.filter RouteEntry.unsigned with
  | some route => (.unsigned route.callback, entries)
  | none =>
    if !asciiEq request.method (asciiText "POST") then
      (.reply 405 "Method not allowed", entries)
    else
      match request.header "X-Signature-Ed25519", request.header "X-Signature-Timestamp" with
      | some signature, some timestamp =>
        if !verifySignature crypto config.publicKeyHex timestamp request.body signature then
          (.reply 401 "Access denied", entries)
        else if !timestampFresh config.replayWindowMs arrival.wallTime timestamp then
          (.reply 401 "Signature timestamp is stale", entries)
        else if route.isNone && hasSignedRouteForMethod config.routes request.method then
          (.reply 404 "Interaction route not found", entries)
        else
          match replaySeen crypto config.replayWindowMs arrival.nowNs timestamp signature
            entries with
          | (.seen, entries) => (.reply 409 "Interaction request replayed", entries)
          | (.capacity, entries) =>
            (.reply 503 "Replay protection capacity exhausted", entries)
          | (.new, entries) => (dispatchPayload crypto config arrival route, entries)
      | _, _ => (.reply 401 "Unsigned requests are not allowed", entries)

/-- The outcomes of a sequence of requests. -/
def outcomes (crypto : Crypto δ) (config : Config) :
    List Arrival → List (Option (ReplayEntry δ)) → List Outcome
  | [], _ => []
  | arrival :: arrivals, entries =>
    let (outcome, entries) := handleRequest crypto config arrival entries
    outcome :: outcomes crypto config arrivals entries

/-- A server starts with no entry. -/
def noEntries : List (Option (ReplayEntry δ)) := List.replicate replayCap none

/-- What a signed request is: the bytes of its signature, its timestamp and its body. -/
def Request.signed (request : Request) : Option (Bytes × Bytes × Bytes) := do
  let signatureHex ← request.header "X-Signature-Ed25519"
  let timestamp ← request.header "X-Signature-Timestamp"
  let signature ← hexDecodeExact signatureHex 64
  return (signature, timestamp, request.body)

end Dcc.Interactions
