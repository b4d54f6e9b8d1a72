import Dcc.Lib.Reach
import Dcc.Rest.Buffer
import Dcc.Session.Import

/-!
# Exporting a store of sessions

`dcc_component_session_store_export_json` writes the sessions of a store as a document, member by
member into a buffer that grows, and `dcc_component_session_store_import_json` reads such a
document back.  The import takes secrets of at most `INT_MAX` bytes, and stores take any.

* `storeInv_step` — what the operations keep: distinct ids, secrets, and a capacity that a store
  grows to;
* `exportJson_spec` — the export stays inside its buffer and writes the document of the sessions;
* `export_import` — into a store without sessions the document brings the same sessions back.
-/

namespace Dcc.Session

open Dcc.Json Dcc.Json.Grammar Dcc.Commands Dcc.Rest Decimal

/-! ## The operations of a store -/

/-- The loop of `dcc_component_session_store_sweep`, over the sessions before `i` and those from `i`
on: the last session takes the place of one that has expired. -/
def sweepFrom (nowMs : UInt64) : Nat → List State → List State → List State
  | _, kept, [] => kept
  | 0, kept, session :: rest => kept ++ session :: rest
  | fuel + 1, kept, session :: rest =>
    if nowMs > session.expiresAtMs then
      sweepFrom nowMs fuel kept (rest.getLast?.toList ++ rest.dropLast)
    else sweepFrom nowMs fuel (kept ++ [session]) rest

/-- `dcc_component_session_store_sweep`. -/
def storeSweep (nowMs : UInt64) (store : Option StoreState) : Option StoreState :=
  store.map fun state =>
    { state with sessions := sweepFrom nowMs state.sessions.length [] state.sessions }

/-- The calls that change a store. -/
inductive StoreMove
  | add (memory : Memory) (session : State)
  | sweep (nowMs : UInt64)
  | importJson (document : Bool) (memory : Nat → Memory) (json : Bytes)
  | deinit

/-- What a call makes of a store. -/
def storeStep (store : Option StoreState) : StoreMove → Option StoreState
  | .add memory session => (storeAdd memory store session).2
  | .sweep nowMs => storeSweep nowMs store
  | .importJson document memory json => (importJson document memory store json).2
  | .deinit => none

/-- The stores that the calls can come to. -/
abbrev StoreReach : Option StoreState → Prop :=
  Machine.Reach storeStep (fun _ _ => True) none

/-! ## The export -/

/-- `dcc_component_session_append_json_u64_string`. -/
def u64Steps (value : UInt64) : List (Except Status Bytes) :=
  jsonStringSteps (decimalText value.toNat)

/-- `dcc_component_session_append_secret_hex`. -/
def secretHexSteps (secret : Bytes) : List (Except Status Bytes) :=
  if secret = [] then [.error .invalidArg]
  else
    .ok [chQuote] :: (secret.map fun byte =>
        .ok [hexDigit (byte.toNat / 16), hexDigit (byte.toNat % 16)]) ++ [.ok [chQuote]]

/-- A text that is written as it is. -/
def textStep (text : String) : List (Except Status Bytes) := [.ok (asciiText text)]

/-- `dcc_component_session_append_session_json`. -/
def sessionSteps (session : State) : List (Except Status Bytes) :=
  if session.secret = [] then [.error .invalidArg]
  else
    textStep "\x7b\"session_id\":" ++ jsonStringSteps session.sessionId.text ++
      textStep ",\"nonce\":" ++ jsonStringSteps session.nonce.text ++
      textStep ",\"secret_hex\":" ++ secretHexSteps session.secret ++
      textStep ",\"expires_at_ms\":" ++ u64Steps session.expiresAtMs ++
      textStep ",\"user_id\":" ++ u64Steps session.userId ++
      textStep ",\"channel_id\":" ++ u64Steps session.channelId ++
      textStep ",\"guild_id\":" ++ u64Steps session.guildId ++
      textStep (if session.lockUser then ",\"lock_user\":true" else ",\"lock_user\":false") ++
      textStep (if session.lockChannel then ",\"lock_channel\":true"
        else ",\"lock_channel\":false") ++
      textStep (if session.lockGuild then ",\"lock_guild\":true\x7d"
        else ",\"lock_guild\":false\x7d")

/-- The loop of `dcc_component_session_store_export_json`, from session `i` on. -/
def exportFrom : Nat → List State → List (Except Status Bytes)
  | _, [] => []
  | i, session :: rest =>
    (if i ≠ 0 then textStep "," else []) ++ sessionSteps session ++ exportFrom (i + 1) rest

/-- `dcc_component_session_store_export_json`; `none` where a write would leave the buffer. -/
def exportJson (heap : Heap) (store : Option StoreState) : Option (Except Status Bytes) :=
  (appendSteps heap Buffer.empty
      (textStep "\x7b\"version\":1,\"sessions\":[" ++ exportFrom 0 (sessionsOf store) ++
        textStep "]\x7d")).map fun r =>
    match r with
    | (.ok, buffer) => .ok (buffer.block.take buffer.len)
    | (status, _) => .error status

/-! ## The document -/

/-- What is written of a session. -/
def sessionValue (session : State) : Value :=
  .object
    [(asciiText "session_id", .string session.sessionId.text),
      (asciiText "nonce", .string session.nonce.text),
      (asciiText "secret_hex", .string (hexText session.secret)),
      (asciiText "expires_at_ms", .string (decimalText session.expiresAtMs.toNat)),
      (asciiText "user_id", .string (decimalText session.userId.toNat)),
      (asciiText "channel_id", .string (decimalText session.channelId.toNat)),
      (asciiText "guild_id", .string (decimalText session.guildId.toNat)),
      (asciiText "lock_user", .bool session.lockUser),
      (asciiText "lock_channel", .bool session.lockChannel),
      (asciiText "lock_guild", .bool session.lockGuild)]

/-- What is written of the sessions of a store. -/
def storeValue (sessions : List State) : Value :=
  .object [(asciiText "version", .number (asciiText "1")),
    (asciiText "sessions", .array (sessions.map sessionValue))]

theorem puts_text (text : String) : Puts (textStep text) (asciiText text) :=
  ⟨[asciiText text], rfl, by simp⟩

variable {text : Bytes}

theorem asciiKey_iff : asciiKey text = true ↔
    ∀ ch ∈ text, 0x20 ≤ ch.toNat ∧ ch.toNat < 0x80 ∧ ch.toNat ≠ 0x22 ∧ ch.toNat ≠ 0x5c := by
  simp only [asciiKey, List.all_eq_true, Bool.and_eq_true, decide_eq_true_eq, bne_iff_ne, ne_eq,
    UInt8.le_iff_toNat_le, UInt8.lt_iff_toNat_lt, ← UInt8.toNat_inj, and_assoc]
  rfl

theorem puts_jsonString (h : asciiKey text = true) :
    Puts (jsonStringSteps text) (appendJsonValue (.string text)) := by
  refine ⟨[chQuote] :: (text.map escapeRestByte ++ [[chQuote]]), ?_, ?_⟩
  · simp [jsonStringSteps]
  · have hsame : text.flatMap escapeRestByte = text.flatMap escapeByte := by
      refine List.flatMap_congr fun ch hch => escapeRestByte_eq ?_
      exact UInt8.not_lt.mpr (UInt8.le_iff_toNat_le.mpr (asciiKey_iff.mp h ch hch).1)
    rw [List.flatten_cons, List.flatten_append, ← List.flatMap_def, hsame]
    rfl

theorem asciiKey_token {maxLen : Nat} (token : Token maxLen) : asciiKey token.text = true := by
  refine asciiKey_iff.mpr fun ch hch => ?_
  have hchar := ((tokenValid_iff _ _).mp token.valid).2.2 ch hch
  simp only [tokenChar, Bool.or_eq_true, Bool.and_eq_true, decide_eq_true_eq, beq_iff_eq,
    UInt8.le_iff_toNat_le, ← UInt8.toNat_inj, UInt8.reduceToNat] at hchar
  omega

theorem asciiKey_decimal (n : Nat) : asciiKey (decimalText n) = true := by
  refine asciiKey_iff.mpr fun ch hch => ?_
  have hdigit := digit_of_mem hch
  omega

theorem asciiKey_hexText (secret : Bytes) : asciiKey (hexText secret) = true := by
  refine asciiKey_iff.mpr fun ch hch => ?_
  have hrange := hexText_range secret ch hch
  simp only [UInt8.le_iff_toNat_le, UInt8.reduceToNat] at hrange
  omega

theorem puts_u64 (value : UInt64) :
    Puts (u64Steps value) (appendJsonValue (.string (decimalText value.toNat))) :=
  puts_jsonString (asciiKey_decimal _)

theorem flatten_hex (secret : Bytes) :
    (secret.map fun byte =>
      [hexDigit (byte.toNat / 16), hexDigit (byte.toNat % 16)]).flatten = hexText secret := by
  induction secret with
  | nil => rfl
  | cons byte rest ih =>
    rw [List.map_cons, List.flatten_cons, ih]
    rfl

theorem puts_secretHex {secret : Bytes} (h : secret ≠ []) :
    Puts (secretHexSteps secret) (appendJsonValue (.string (hexText secret))) := by
  rw [secretHexSteps, if_neg h]
  refine ⟨[chQuote] :: (secret.map (fun byte =>
    [hexDigit (byte.toNat / 16), hexDigit (byte.toNat % 16)]) ++ [[chQuote]]), ?_, ?_⟩
  · simp
  · rw [List.flatten_cons, List.flatten_append, flatten_hex]
    have hkey := (plainKey_of_asciiKey (asciiKey_hexText secret)).2
    rw [appendJsonValue, appendEscapedString, hkey]
    rfl

/-- The text between the values of two members. -/
def betweenText (key : String) : Bytes :=
  chComma :: chQuote :: ((asciiText key).flatMap escapeByte ++ [chQuote, chColon])

theorem flag_text {flag : Bool} {yes no : String} {key : String} {close : Bytes}
    (hyes : asciiText yes = betweenText key ++ (litTrue ++ close))
    (hno : asciiText no = betweenText key ++ (litFalse ++ close)) :
    asciiText (if flag then yes else no) =
      betweenText key ++ ((if flag then litTrue else litFalse) ++ close) := by
  cases flag with
  | true => exact hyes
  | false => exact hno

variable {session : State}

theorem puts_session (h : session.secret ≠ []) :
    Puts (sessionSteps session) (appendJsonValue (sessionValue session)) := by
  rw [sessionSteps, if_neg h]
  have hputs := puts_text "\x7b\"session_id\":"
    |>.append (puts_jsonString (asciiKey_token session.sessionId))
    |>.append (puts_text ",\"nonce\":")
    |>.append (puts_jsonString (asciiKey_token session.nonce))
    |>.append (puts_text ",\"secret_hex\":") |>.append (puts_secretHex h)
    |>.append (puts_text ",\"expires_at_ms\":") |>.append (puts_u64 session.expiresAtMs)
    |>.append (puts_text ",\"user_id\":") |>.append (puts_u64 session.userId)
    |>.append (puts_text ",\"channel_id\":") |>.append (puts_u64 session.channelId)
    |>.append (puts_text ",\"guild_id\":") |>.append (puts_u64 session.guildId)
    |>.append (puts_text
      (if session.lockUser then ",\"lock_user\":true" else ",\"lock_user\":false"))
    |>.append (puts_text
      (if session.lockChannel then ",\"lock_channel\":true" else ",\"lock_channel\":false"))
    |>.append (puts_text
      (if session.lockGuild then ",\"lock_guild\":true\x7d" else ",\"lock_guild\":false\x7d"))
  obtain ⟨pieces, hsteps, htext⟩ := hputs
  refine ⟨pieces, hsteps, htext.trans ?_⟩
  have hid : asciiText "\x7b\"session_id\":" = chLBrace :: chQuote ::
        ((asciiText "session_id").flatMap escapeByte ++ [chQuote, chColon]) := by
    decide
  have hnonce : asciiText ",\"nonce\":" = betweenText "nonce" := by decide
  have hsecret : asciiText ",\"secret_hex\":" = betweenText "secret_hex" := by decide
  have hexpires : asciiText ",\"expires_at_ms\":" = betweenText "expires_at_ms" := by decide
  have huser : asciiText ",\"user_id\":" = betweenText "user_id" := by decide
  have hchannel : asciiText ",\"channel_id\":" = betweenText "channel_id" := by decide
  have hguild : asciiText ",\"guild_id\":" = betweenText "guild_id" := by decide
  rw [hid, hnonce, hsecret, hexpires, huser, hchannel, hguild,
    @flag_text session.lockUser _ _ "lock_user" [] (by decide) (by decide),
    @flag_text session.lockChannel _ _ "lock_channel" [] (by decide) (by decide),
    @flag_text session.lockGuild _ _ "lock_guild" [chRBrace] (by decide) (by decide)]
  simp only [sessionValue, appendJsonValue, appendJsonEntries, joined, memberText, betweenText,
    List.append_assoc, List.cons_append, List.nil_append, List.append_nil]

variable {sessions : List State}

theorem puts_exportFrom (h : ∀ session ∈ sessions, session.secret ≠ []) (i : Nat) :
    Puts (exportFrom (i + 1) sessions)
      (sessions.flatMap fun session => chComma :: appendJsonValue (sessionValue session)) := by
  induction sessions generalizing i with
  | nil => exact puts_nil
  | cons session rest ih =>
    have hrest := ih (fun other hother => h other (List.mem_cons_of_mem _ hother)) (i + 1)
    rw [exportFrom, if_pos (Nat.succ_ne_zero i)]
    exact ((puts_text ",").append (puts_session (h session List.mem_cons_self))).append hrest

theorem joined_cons (text : Bytes) (texts : List Bytes) :
    joined (text :: texts) = text ++ texts.flatMap fun more => chComma :: more := by
  induction texts generalizing text with
  | nil => simp [joined]
  | cons more texts ih => rw [joined, ih, List.flatMap_cons, List.cons_append]

theorem puts_sessions (h : ∀ session ∈ sessions, session.secret ≠ []) :
    Puts (exportFrom 0 sessions) (joined (sessions.map fun session =>
      appendJsonValue (sessionValue session))) := by
  cases sessions with
  | nil => exact puts_nil
  | cons session rest =>
    have hrest := puts_exportFrom (fun other hother => h other (List.mem_cons_of_mem _ hother)) 0
    rw [List.map_cons, joined_cons, List.flatMap_map, exportFrom, if_neg (not_not.mpr rfl)]
    exact (puts_session (h session List.mem_cons_self)).append hrest

/-- **The document of a store.** -/
theorem puts_store (h : ∀ session ∈ sessions, session.secret ≠ []) :
    Puts (textStep "\x7b\"version\":1,\"sessions\":[" ++ exportFrom 0 sessions ++ textStep "]\x7d")
      (appendJsonValue (storeValue sessions)) := by
  obtain ⟨pieces, hsteps, htext⟩ := puts_text "\x7b\"version\":1,\"sessions\":["
    |>.append (puts_sessions h) |>.append (puts_text "]\x7d")
  refine ⟨pieces, hsteps, htext.trans ?_⟩
  have hopen : asciiText "\x7b\"version\":1,\"sessions\":[" =
      chLBrace :: (memberText ((asciiText "version").flatMap escapeByte) (asciiText "1") ++
        (betweenText "sessions" ++ [chLBracket])) := by
    decide
  have hclose : asciiText "]\x7d" = [chRBracket, chRBrace] := by decide
  rw [hopen, hclose]
  simp only [storeValue, appendJsonValue, appendJsonEntries, appendJsonItems_eq_map, joined,
    memberText, betweenText, List.map_map, List.append_assoc, List.cons_append, List.nil_append]
  rfl

variable {store : Option StoreState}

/-- The export stays inside its buffer.  It gives the document of the sessions, or memory runs
out, or the document is too long for any memory. -/
theorem exportJson_spec (h : ∀ session ∈ sessionsOf store, session.secret ≠ []) (heap : Heap) :
    exportJson heap store = some (.ok (appendJsonValue (storeValue (sessionsOf store)))) ∨
      (exportJson heap store = some (.error .nomem) ∧ ((∀ size, heap.grants size = true) →
          wordMax ≤ (appendJsonValue (storeValue (sessionsOf store))).length)) := by
  rw [exportJson]
  rcases (puts_store h).appendSteps heap with ⟨buffer, hrun, hholds⟩ | ⟨⟨buffer, hrun⟩, hwhy⟩
  · rw [hrun]
    exact .inl (congrArg (fun text => some (Except.ok text)) hholds.front)
  · rw [hrun]
    exact .inr ⟨rfl, hwhy⟩

/-! ## Reading the document -/

theorem readable_ascii (h : asciiKey text = true) : Readable (.string text) :=
  Readable.string (plainKey_of_asciiKey h).1

theorem readable_session (session : State) : Readable (sessionValue session) := by
  have hkeys : ∀ key ∈ [asciiText "session_id", asciiText "nonce", asciiText "secret_hex",
      asciiText "expires_at_ms", asciiText "user_id", asciiText "channel_id",
      asciiText "guild_id", asciiText "lock_user", asciiText "lock_channel",
      asciiText "lock_guild"], asciiKey key = true := by
    decide
  refine Readable.object (fun entry hentry => ?_) (fun entry hentry => ?_)
  · exact (plainKey_of_asciiKey (hkeys entry.1 (List.mem_map_of_mem (f := Prod.fst) hentry))).1
  · simp only [List.mem_cons, List.not_mem_nil, or_false] at hentry
    rcases hentry with rfl | rfl | rfl | rfl | rfl | rfl | rfl | rfl | rfl | rfl
    · exact readable_ascii (asciiKey_token session.sessionId)
    · exact readable_ascii (asciiKey_token session.nonce)
    · exact readable_ascii (asciiKey_hexText session.secret)
    · exact readable_ascii (asciiKey_decimal _)
    · exact readable_ascii (asciiKey_decimal _)
    · exact readable_ascii (asciiKey_decimal _)
    · exact readable_ascii (asciiKey_decimal _)
    · exact Readable.bool _
    · exact Readable.bool _
    · exact Readable.bool _

theorem readable_store (sessions : List State) : Readable (storeValue sessions) := by
  have hkeys : ∀ key ∈ [asciiText "version", asciiText "sessions"], asciiKey key = true := by
    decide
  refine Readable.object (fun entry hentry => ?_) (fun entry hentry => ?_)
  · exact (plainKey_of_asciiKey (hkeys entry.1 (List.mem_map_of_mem (f := Prod.fst) hentry))).1
  · simp only [List.mem_cons, List.not_mem_nil, or_false] at hentry
    rcases hentry with rfl | rfl
    · exact Readable.number (number_decimalText 1)
    · refine Readable.array fun item hitem => ?_
      obtain ⟨session, -, rfl⟩ := List.mem_map.mp hitem
      exact readable_session session

theorem documentEntries_store (sessions : List State) :
    documentEntries (appendJsonValue (storeValue sessions)) = .ok (sessions.map sessionValue) := by
  have hreadable := readable_store sessions
  have htext : Text (storeValue sessions) (appendJsonValue (storeValue sessions)) :=
    item_of_derives (derives_appendJsonValue hreadable)
  have hparse := (parse_ok_iff _ (storeValue sessions).terminated).mpr ⟨_, htext, rfl⟩
  rw [hreadable.terminated_eq] at hparse
  have hversion : jsonU64Required (storeValue sessions) "version" = .ok 1 := rfl
  have hentries : objectGet (storeValue sessions) (asciiText "sessions") =
      some (.array (sessions.map sessionValue)) := rfl
  simp only [documentEntries, hparse, hversion, hentries]
  rfl

theorem secretBytes_hexText (secret : Bytes) : secretBytes (hexText secret) = some secret := by
  have hdigit : ∀ n < 16, hexValue (hexDigit n) = some n := by decide
  induction secret with
  | nil => rfl
  | cons byte rest ih =>
    have hbyte : byte.toNat < 256 := byte.toNat_lt
    rw [hexText, secretBytes, hdigit _ (by omega), hdigit _ (by omega)]
    simp only [ih, Option.map_some, Nat.div_add_mod', UInt8.ofNat_toNat]

theorem jsonU64Required_text {object : Value} {key : String} {value : UInt64}
    (h : objectGet object (asciiText key) = some (.string (decimalText value.toNat))) :
    jsonU64Required object key = .ok value := by
  have hread : readDecimal wordMax (decimalText value.toNat) = some value.toNat :=
    readDecimal_decimalText (Nat.le_of_lt_succ value.toNat_lt)
  simp only [jsonU64Required, h, jsonU64, jsonString, Option.bind_some, hread, UInt64.ofNat_toNat]

theorem jsonBoolRequired_value {object : Value} {key : String} {value : Bool}
    (h : objectGet object (asciiText key) = some (.bool value)) :
    jsonBoolRequired object key = .ok value := by
  rw [jsonBoolRequired, h]

theorem decodeSecretHex_hexText {secret : Bytes} (h : secret ≠ []) :
    decodeSecretHex Memory.enough (some (hexText secret)) =
      if secret.length ≤ intMax then .ok secret else .error .json := by
  have hlength := hexText_length secret
  have hpos : 0 < secret.length := List.length_pos_iff.mpr h
  rw [decodeSecretHex, secretBytes_hexText]
  by_cases hshort : secret.length ≤ intMax
  · rw [if_neg (by omega), if_pos hshort]
    rfl
  · rw [if_pos (by omega), if_neg hshort]

/-- **A session comes back** from its document, unless its secret is too long. -/
theorem readSession_value (h : session.secret ≠ []) :
    readSession Memory.enough (sessionValue session) =
      if session.secret.length ≤ intMax then .ok session else .error .json := by
  have hid : jsonToken (sessionValue session) "session_id" sessionIdMax =
      .ok session.sessionId := by
    have hget : jsonString (objectGet (sessionValue session) (asciiText "session_id")) =
        some session.sessionId.text := rfl
    simp only [jsonToken, hget, session.sessionId.valid, dite_true]
  have hnonce : jsonToken (sessionValue session) "nonce" nonceMax = .ok session.nonce := by
    have hget : jsonString (objectGet (sessionValue session) (asciiText "nonce")) =
        some session.nonce.text := rfl
    simp only [jsonToken, hget, session.nonce.valid, dite_true]
  have hsecret : jsonString (objectGet (sessionValue session) (asciiText "secret_hex")) =
      some (hexText session.secret) := rfl
  have hexpires : jsonU64Required (sessionValue session) "expires_at_ms" =
      .ok session.expiresAtMs := jsonU64Required_text rfl
  have huser : jsonU64Required (sessionValue session) "user_id" = .ok session.userId :=
    jsonU64Required_text rfl
  have hchannel : jsonU64Required (sessionValue session) "channel_id" = .ok session.channelId :=
    jsonU64Required_text rfl
  have hguild : jsonU64Required (sessionValue session) "guild_id" = .ok session.guildId :=
    jsonU64Required_text rfl
  have hlockUser : jsonBoolRequired (sessionValue session) "lock_user" = .ok session.lockUser :=
    jsonBoolRequired_value rfl
  have hlockChannel : jsonBoolRequired (sessionValue session) "lock_channel" =
      .ok session.lockChannel := jsonBoolRequired_value rfl
  have hlockGuild : jsonBoolRequired (sessionValue session) "lock_guild" = .ok session.lockGuild :=
    jsonBoolRequired_value rfl
  unfold readSession
  simp only [sessionValue]
  rw [← sessionValue, hid, hnonce, hsecret, decodeSecretHex_hexText h, hexpires, huser, hchannel,
    hguild, hlockUser, hlockChannel, hlockGuild]
  by_cases hshort : session.secret.length ≤ intMax
  · simp only [if_pos hshort]
    rfl
  · simp only [if_neg hshort]
    rfl

/-! ## What the operations keep -/

/-- A capacity that a store grows to. -/
def Capacity (cap : Nat) : Prop := cap = 0 ∨ ∃ k, cap = 8 * 2 ^ k ∧ cap ≤ wordMax / stateSize

/-- The capacity of a store. -/
def capOf (store : Option StoreState) : Nat := (store.map StoreState.cap).getD 0

/-- What holds of every store. -/
structure StoreInv (store : Option StoreState) : Prop where
  distinct : ((sessionsOf store).map fun session => session.sessionId.text).Nodup
  secrets : ∀ session ∈ sessionsOf store, session.secret ≠ []
  room : (sessionsOf store).length ≤ capOf store
  capacity : Capacity (capOf store)

theorem storeInv_none : StoreInv none where
  distinct := List.nodup_nil
  secrets := fun _ h => nomatch h
  room := Nat.le_refl 0
  capacity := .inl rfl

theorem replaceSession_some {sessions sessions' : List State}
    (h : replaceSession session sessions = some sessions') :
    ∃ before old after, sessions = before ++ old :: after ∧
      old.sessionId.text = session.sessionId.text ∧ sessions' = before ++ session :: after := by
  induction sessions generalizing sessions' with
  | nil => cases h
  | cons s rest ih =>
    rw [replaceSession] at h
    split at h
    · next hsame =>
      cases h
      exact ⟨[], s, rest, rfl, hsame, rfl⟩
    · obtain ⟨tail, htail, rfl⟩ := Option.map_eq_some_iff.mp h
      obtain ⟨before, old, after, rfl, hold, rfl⟩ := ih htail
      exact ⟨s :: before, old, after, rfl, hold, rfl⟩

theorem replaceSession_none :
    replaceSession session sessions = none ↔
      ∀ s ∈ sessions, s.sessionId.text ≠ session.sessionId.text := by
  induction sessions with
  | nil => simp [replaceSession]
  | cons s rest ih =>
    rw [replaceSession]
    by_cases hsame : s.sessionId.text = session.sessionId.text
    · simp [hsame]
    · simp [hsame, ih]

variable {state : StoreState}

theorem grow_spec {memory : Memory} {cap : Nat}
    (hroom : state.sessions.length ≤ state.cap) (hcap : Capacity state.cap)
    (h : grow memory state = .ok cap) : state.sessions.length + 1 ≤ cap ∧ Capacity cap := by
  unfold grow at h
  by_cases hless : state.sessions.length < state.cap
  · rw [if_pos hless] at h
    cases h
    exact ⟨hless, hcap⟩
  rw [if_neg hless] at h
  dsimp only at h
  generalize hnext : (if state.cap ≠ 0 then state.cap * 2 else 8) = next at h
  split_ifs at h with hmany hfits
  cases h
  rcases hcap with hzero | ⟨k, hk, -⟩
  · rw [if_neg (not_not.mpr hzero)] at hnext
    exact ⟨by omega, .inr ⟨0, by omega, by omega⟩⟩
  · have hpos : 0 < 2 ^ k := Nat.two_pow_pos k
    rw [if_pos (by omega)] at hnext
    refine ⟨by omega, .inr ⟨k + 1, ?_, by omega⟩⟩
    rw [← hnext, hk, Nat.pow_succ]
    omega

theorem grow_enough {larger : Nat} (hcap : Capacity state.cap)
    (hlarger : Capacity larger) (hless : state.sessions.length < larger) :
    ∃ cap, grow Memory.enough state = .ok cap := by
  have hwords : 8 ≤ wordMax / stateSize := by decide
  unfold grow
  by_cases hroom : state.sessions.length < state.cap
  · exact ⟨_, if_pos hroom⟩
  rw [if_neg hroom]
  rcases hcap with hzero | ⟨k, hk, hfits⟩
  · rw [hzero, if_neg (by simp)]
    simp only [ne_eq, not_true_eq_false, if_false]
    rw [if_neg (by omega)]
    exact ⟨8, rfl⟩
  · have hpos : 0 < 2 ^ k := Nat.two_pow_pos k
    obtain ⟨j, hj, hbound⟩ := hlarger.resolve_left (by omega)
    have hkj : k < j := by
      refine (Nat.pow_lt_pow_iff_right (by decide : 1 < 2)).mp ?_
      omega
    have hdouble : 2 ^ (k + 1) ≤ 2 ^ j := Nat.pow_le_pow_right (by decide) hkj
    rw [Nat.pow_succ] at hdouble
    have hmax : wordMax / stateSize ≤ wordMax / 2 := by decide
    rw [if_neg (by omega)]
    simp only [if_pos (by omega : state.cap ≠ 0)]
    rw [if_neg (by omega)]
    exact ⟨_, rfl⟩

theorem storeInv_add {memory : Memory} {store : Option StoreState} {session : State}
    (h : StoreInv store) : StoreInv (storeAdd memory store session).2 := by
  have hstate : StoreInv (some (store.getD ⟨[], 0⟩)) := by
    cases store with
    | none => exact ⟨List.nodup_nil, (fun _ hmem => nomatch hmem), Nat.le_refl 0, .inl rfl⟩
    | some state => exact h
  unfold storeAdd
  split
  · exact h
  · generalize store.getD ⟨[], 0⟩ = state at hstate
    obtain ⟨hdistinct, hsecrets, hroom, hcap⟩ := hstate
    simp only [sessionsOf, capOf, Option.map_some, Option.getD_some]
      at hdistinct hsecrets hroom hcap
    simp only
    split
    · exact ⟨hdistinct, hsecrets, hroom, hcap⟩
    · next hsecret =>
      split
      · exact ⟨hdistinct, hsecrets, hroom, hcap⟩
      · split
        · next sessions hreplace =>
          obtain ⟨before, old, after, hbefore, hsame, rfl⟩ := replaceSession_some hreplace
          rw [hbefore] at hdistinct hsecrets hroom
          refine ⟨?_, ?_, ?_, hcap⟩
          · simpa [sessionsOf, hsame] using hdistinct
          · intro other hother
            rcases List.mem_append.mp hother with hmem | hmem
            · exact hsecrets other (List.mem_append_left _ hmem)
            · rcases List.mem_cons.mp hmem with rfl | hmem
              · simpa using hsecret
              · exact hsecrets other (List.mem_append_right _ (List.mem_cons_of_mem _ hmem))
          · simpa [sessionsOf, capOf] using hroom
        · next hreplace =>
          split
          · exact ⟨hdistinct, hsecrets, hroom, hcap⟩
          · next cap hgrow =>
            obtain ⟨hmore, hcap'⟩ := grow_spec hroom hcap hgrow
            have hnew := replaceSession_none.mp hreplace
            refine ⟨?_, ?_, ?_, hcap'⟩
            · simp only [sessionsOf, Option.map_some, Option.getD_some, List.map_append]
              refine List.nodup_append.mpr ⟨hdistinct, by simp, ?_⟩
              intro id hid id' hid' hsame
              obtain ⟨other, hother, rfl⟩ := List.mem_map.mp hid
              exact hnew other hother (hsame.trans (List.mem_singleton.mp hid'))
            · intro other hother
              rcases List.mem_append.mp hother with hmem | hmem
              · exact hsecrets other hmem
              · rw [List.mem_singleton.mp hmem]
                simpa using hsecret
            · simpa [sessionsOf, capOf] using hmore

theorem storeInv_importFrom {memory : Nat → Memory} {entries : List Value} {i : Nat}
    (h : StoreInv store) :
    StoreInv (importFrom memory i store entries).2 := by
  induction entries generalizing i store with
  | nil => exact h
  | cons json rest ih =>
    have hone : StoreInv (importOne (memory i) store json).2 := by
      unfold importOne
      split
      · exact h
      · exact storeInv_add h
    rw [importFrom]
    split
    · next store' heq =>
      rw [heq] at hone
      exact ih hone
    · next status store' _ heq =>
      rw [heq] at hone
      exact hone

/-- **A sweep** leaves the sessions that have not expired. -/
theorem sweepFrom_perm (nowMs : UInt64) {fuel : Nat} {kept todo : List State}
    (h : todo.length ≤ fuel) :
    (sweepFrom nowMs fuel kept todo).Perm
      (kept ++ todo.filter fun session => !decide (nowMs > session.expiresAtMs)) := by
  induction fuel generalizing kept todo with
  | zero =>
    rw [List.length_eq_zero_iff.mp (Nat.le_zero.mp h)]
    simp [sweepFrom]
  | succ fuel ih =>
    cases todo with
    | nil => simp [sweepFrom]
    | cons session rest =>
      rw [List.length_cons] at h
      rw [sweepFrom]
      split
      · next hexpired =>
        have hlast : (rest.getLast?.toList ++ rest.dropLast).Perm rest := by
          cases rest using List.reverseRecOn with
          | nil => exact List.Perm.refl _
          | append_singleton front last =>
            rw [List.getLast?_concat, List.dropLast_concat]
            exact List.perm_append_comm
        refine (ih (by rw [hlast.length_eq]; omega)).trans ?_
        rw [List.filter_cons_of_neg (by simp [hexpired])]
        exact (hlast.filter _).append_left kept
      · next hkeeps =>
        refine (ih (by omega)).trans ?_
        rw [List.filter_cons_of_pos (by simp [hkeeps]), List.append_assoc]
        rfl

theorem storeInv_sweep {nowMs : UInt64} (h : StoreInv store) :
    StoreInv (storeSweep nowMs store) := by
  cases store with
  | none => exact h
  | some state =>
    obtain ⟨hdistinct, hsecrets, hroom, hcap⟩ := h
    have hperm := @sweepFrom_perm nowMs _ [] state.sessions (Nat.le_refl _)
    rw [List.nil_append] at hperm
    have hsub : ∀ session ∈ sweepFrom nowMs state.sessions.length [] state.sessions,
        session ∈ state.sessions :=
      fun session hmem => List.mem_of_mem_filter (hperm.mem_iff.mp hmem)
    refine ⟨?_, fun session hmem => hsecrets session (hsub session hmem), ?_, hcap⟩
    · refine ((hperm.map _).nodup_iff).mpr ?_
      exact hdistinct.sublist ((List.filter_sublist).map _)
    · refine Nat.le_trans ?_ hroom
      exact Nat.le_trans (Nat.le_of_eq hperm.length_eq) (List.length_filter_le _ _)

/-- **An operation keeps the invariant.** -/
theorem storeInv_step (store : Option StoreState) (move : StoreMove) (h : StoreInv store) :
    StoreInv (storeStep store move) := by
  cases move with
  | add memory session => exact storeInv_add h
  | sweep nowMs => exact storeInv_sweep h
  | importJson document memory json =>
    rw [storeStep, importJson]
    split
    · exact h
    split
    · exact h
    split
    · exact h
    · exact storeInv_importFrom h
  | deinit => exact storeInv_none

theorem storeInv_reach (h : StoreReach store) : StoreInv store :=
  h.invariant storeInv_none fun store move hinv _ => storeInv_step store move hinv

/-! ## Importing the document -/

theorem storeAdd_new {store : Option StoreState} {session : State} {larger : Nat}
    (h : StoreInv store) (hsecret : session.secret ≠ [])
    (hnew : ∀ other ∈ sessionsOf store, other.sessionId.text ≠ session.sessionId.text)
    (hlarger : Capacity larger) (hless : (sessionsOf store).length < larger) :
    ∃ store', storeAdd Memory.enough store session = (.ok, store') ∧
      sessionsOf store' = sessionsOf store ++ [session] := by
  have hsessions : (store.getD ⟨[], 0⟩).sessions = sessionsOf store := by
    cases store <;> rfl
  have hcap : Capacity (store.getD ⟨[], 0⟩).cap := by
    cases store with
    | none => exact .inl rfl
    | some state => exact h.capacity
  have hreplace : replaceSession session (store.getD ⟨[], 0⟩).sessions = none := by
    rw [hsessions]
    exact replaceSession_none.mpr hnew
  obtain ⟨cap, hgrow⟩ := grow_enough hcap hlarger (by rwa [hsessions])
  have hempty : session.secret.isEmpty = false := by simpa using hsecret
  have hensure : (store.isNone && !Memory.enough.ensure) = false := by simp [Memory.enough]
  have hcopy : (!Memory.enough.copy) = false := rfl
  refine ⟨some ⟨sessionsOf store ++ [session], cap⟩, ?_, rfl⟩
  rw [← hsessions]
  simp only [storeAdd, hensure, hempty, hcopy, hreplace, hgrow, Bool.false_eq_true, if_false]

/-- **The entries of a document** go behind the sessions of a store that has none of them. -/
theorem importFrom_values {sessions : List State} {larger : Nat} (hlarger : Capacity larger)
    (hsecrets : ∀ session ∈ sessions, session.secret ≠ [] ∧ session.secret.length ≤ intMax)
    {i : Nat} {store : Option StoreState} (h : StoreInv store)
    (hdistinct : ((sessionsOf store ++ sessions).map fun session => session.sessionId.text).Nodup)
    (hfits : (sessionsOf store ++ sessions).length ≤ larger) :
    ∃ store', importFrom (fun _ => Memory.enough) i store (sessions.map sessionValue) =
        (.ok, store') ∧ sessionsOf store' = sessionsOf store ++ sessions := by
  induction sessions generalizing i store with
  | nil => exact ⟨store, rfl, (List.append_nil _).symm⟩
  | cons session rest ih =>
    obtain ⟨hsecret, hshort⟩ := hsecrets session List.mem_cons_self
    have hnew : ∀ other ∈ sessionsOf store, other.sessionId.text ≠ session.sessionId.text := by
      intro other hother
      rw [List.map_append, List.nodup_append] at hdistinct
      exact hdistinct.2.2 _ (List.mem_map_of_mem hother) _ List.mem_cons_self
    have hroom : (sessionsOf store).length < larger := by
      rw [List.length_append, List.length_cons] at hfits
      omega
    obtain ⟨store', hadd, hsessions⟩ := storeAdd_new h hsecret hnew hlarger hroom
    have hinv : StoreInv store' := by
      have hkept := @storeInv_add Memory.enough store session h
      rwa [hadd] at hkept
    have hone : importOne Memory.enough store (sessionValue session) = (.ok, store') := by
      rw [importOne, readSession_value hsecret, if_pos hshort]
      exact hadd
    have hsplit : sessionsOf store' ++ rest = sessionsOf store ++ session :: rest := by
      rw [hsessions, List.append_assoc]
      rfl
    rw [← hsplit] at hdistinct hfits ⊢
    obtain ⟨last, hlast, hall⟩ := ih
      (fun other hother => hsecrets other (List.mem_cons_of_mem _ hother)) hinv hdistinct hfits
    refine ⟨last, ?_, hall⟩
    rw [List.map_cons, importFrom, hone]
    exact hlast

theorem appendJsonValue_store_ne_nil (sessions : List State) :
    (appendJsonValue (storeValue sessions)).length ≠ 0 := by
  simp [storeValue, appendJsonValue]

/-- **What was exported is imported.**  The export of a store stays inside its buffer, and gives
JSON unless memory runs out or no memory is large enough.  Where the secrets are not longer than
`INT_MAX` bytes, the import into a store without sessions makes the same sessions of it, so at
any time the same ones have not expired. -/
theorem export_import {store empty : Option StoreState} (h : StoreReach store)
    (hempty : StoreReach empty) (hnone : sessionsOf empty = [])
    (hshort : ∀ session ∈ sessionsOf store, session.secret.length ≤ intMax) (heap : Heap) :
    (∃ json, exportJson heap store = some (.ok json) ∧
        ∃ store', importJson true (fun _ => Memory.enough) empty json = (.ok, store') ∧
          sessionsOf store' = sessionsOf store) ∨
      (exportJson heap store = some (.error .nomem) ∧ ((∀ size, heap.grants size = true) →
          wordMax ≤ (appendJsonValue (storeValue (sessionsOf store))).length)) := by
  obtain ⟨hdistinct, hsecrets, hroom, hcap⟩ := storeInv_reach h
  refine (exportJson_spec hsecrets heap).imp_left fun hexport => ⟨_, hexport, ?_⟩
  have hstart : sessionsOf empty ++ sessionsOf store = sessionsOf store := by
    rw [hnone, List.nil_append]
  obtain ⟨store', himport, hsessions⟩ := @importFrom_values (sessionsOf store) _ hcap
    (fun session hmem => ⟨hsecrets session hmem, hshort session hmem⟩) 0 empty
    (storeInv_reach hempty) (by rwa [hstart]) (by rwa [hstart])
  rw [hstart] at hsessions
  refine ⟨store', ?_, hsessions⟩
  rw [importJson, if_neg (appendJsonValue_store_ne_nil _), documentEntries_store]
  exact himport

/-- A session with the given secret, and nothing else that matters. -/
def sampleSession (secret : Bytes) : State :=
  { sessionId := ⟨asciiText "a", by decide⟩, nonce := ⟨asciiText "b", by decide⟩, secret
    expiresAtMs := 0, userId := 0, channelId := 0, guildId := 0
    lockUser := false, lockChannel := false, lockGuild := false }

theorem length_sample (secret : Bytes) :
    (appendJsonValue (storeValue [sampleSession secret])).length = 2 * secret.length + 197 := by
  have hhex : (hexText secret).flatMap escapeByte = hexText secret :=
    (plainKey_of_asciiKey (asciiKey_hexText secret)).2
  have hdecimal : decimalText (UInt64.toNat 0) = asciiText "0" := rfl
  simp only [storeValue, sessionValue, sampleSession, appendJsonValue, appendJsonEntries,
    appendJsonItems, appendEscapedString, joined, memberText, hhex, hdecimal, List.map_cons,
    List.map_nil, List.length_append, List.length_cons, List.length_nil, hexText_length]
  have hkeys : (["version", "sessions", "session_id", "nonce", "secret_hex", "expires_at_ms",
      "user_id", "channel_id", "guild_id", "lock_user", "lock_channel", "lock_guild", "a", "b",
      "0"].map fun text => ((asciiText text).flatMap escapeByte).length) =
      [7, 8, 10, 5, 10, 13, 7, 10, 8, 9, 12, 10, 1, 1, 1] := by
    decide
  simp only [List.map_cons, List.map_nil, List.cons.injEq, and_true] at hkeys
  have hone : (asciiText "1").length = 1 := rfl
  have hfalse : litFalse.length = 5 := rfl
  simp only [Bool.false_eq_true, if_false, hfalse, hone]
  omega

theorem sample_store {secret : Bytes} (h : secret ≠ []) :
    ∃ store, StoreReach store ∧ sessionsOf store = [sampleSession secret] := by
  have hcap : Capacity 8 := .inr ⟨0, rfl, by decide⟩
  obtain ⟨store, hadd, hsessions⟩ := @storeAdd_new none (sampleSession secret) 8 storeInv_none h
    (fun other hother => nomatch hother) hcap (by decide)
  refine ⟨store, ?_, hsessions⟩
  have hreach := @Machine.Reach.step _ _ storeStep (fun _ _ => True) none none
    (.add Memory.enough (sampleSession secret)) .start trivial
  rwa [storeStep, hadd] at hreach

theorem export_import_sample :
    ∃ store, StoreReach store ∧ sessionsOf store = [sampleSession [0xff]] ∧
      ∃ json, exportJson ⟨fun _ => true, fun _ => 0⟩ store = some (.ok json) ∧
        ∃ store', importJson true (fun _ => Memory.enough) none json = (.ok, store') ∧
          sessionsOf store' = sessionsOf store := by
  obtain ⟨store, hreach, hsessions⟩ := @sample_store [0xff] (by simp)
  have hshort : ∀ session ∈ sessionsOf store, session.secret.length ≤ intMax := by
    rw [hsessions]
    intro session hmem
    rw [List.mem_singleton.mp hmem]
    decide
  refine ⟨store, hreach, hsessions, ?_⟩
  rcases export_import hreach .start rfl hshort ⟨fun _ => true, fun _ => 0⟩ with hdone | ⟨-, hlong⟩
  · exact hdone
  · have hlong := hlong fun _ => rfl
    rw [hsessions, length_sample] at hlong
    exact absurd hlong (by decide)

/-- The import refuses a secret of `INT_MAX + 1` bytes, which a store takes and exports. -/
theorem long_secret_lost :
    ¬ ∀ store heap json, StoreReach store → exportJson heap store = some (.ok json) →
      ∃ store', importJson true (fun _ => Memory.enough) none json = (.ok, store') ∧
        sessionsOf store' = sessionsOf store := by
  intro hall
  obtain ⟨secret, hsecret⟩ : ∃ secret : Bytes, secret.length = intMax + 1 :=
    ⟨List.replicate (intMax + 1) 0, List.length_replicate⟩
  have hne : secret ≠ [] := by
    intro hnil
    rw [hnil] at hsecret
    cases hsecret
  obtain ⟨store, hreach, hsessions⟩ := sample_store hne
  have hsecrets : ∀ session ∈ sessionsOf store, session.secret ≠ [] :=
    (storeInv_reach hreach).secrets
  rcases exportJson_spec hsecrets ⟨fun _ => true, fun _ => 0⟩ with hexport | ⟨-, hlong⟩
  · obtain ⟨store', himport, -⟩ := hall store _ _ hreach hexport
    have hrefused : readSession Memory.enough (sessionValue (sampleSession secret)) =
        .error .json := by
      rw [readSession_value hne, if_neg]
      exact Nat.not_le.mpr (by rw [sampleSession, hsecret]; exact Nat.lt_succ_self _)
    rw [importJson, if_neg (appendJsonValue_store_ne_nil _), documentEntries_store, hsessions,
      List.map_singleton] at himport
    simp [importFrom, importOne, hrefused] at himport
  · have hlong := hlong fun _ => rfl
    rw [hsessions, length_sample, hsecret] at hlong
    exact absurd hlong (by decide)

end Dcc.Session
