import Mathlib.Data.List.GetD
import Dcc.Basic

/-!
# Signed component ids

A component session puts `dcc:v1:<session>:<action>:<nonce>:<sig>` into the
`custom_id` of a button, and checks the text that comes back in an interaction.
The signature is the first eight bytes of an HMAC over the text before it.
HMAC-SHA256 is OpenSSL's, so it is a parameter here: a function of key and
message that may fail, about which nothing is assumed.

A C string is the list of the bytes before its terminator.

* `parseCustomId_iff` — the texts that parse, with their parts;
* `verify_ok_iff` — the texts that are accepted: those built for the session
  with *some* nonce, in time and with its locks matching;
* `verify_authentic_iff` — so acceptance means "built for this very state"
  exactly where the text was not built with another nonce of the session.
-/

namespace Dcc.Session

/-- `DCC_COMPONENT_SESSION_CUSTOM_ID_MAX`. -/
def customIdMax : Nat := 100

/-- `DCC_COMPONENT_SESSION_ID_MAX`. -/
def sessionIdMax : Nat := 16

/-- `DCC_COMPONENT_SESSION_ACTION_MAX`. -/
def actionMax : Nat := 32

/-- `DCC_COMPONENT_SESSION_NONCE_MAX`. -/
def nonceMax : Nat := 16

/-- `DCC_COMPONENT_SESSION_SIG_HEX_LEN`. -/
def sigHexLen : Nat := 16

/-- `sizeof(message)` in `dcc_component_session_sign`. -/
def messageSize : Nat := 96

/-- `INT_MAX`. -/
def intMax : Nat := 2 ^ 31 - 1

/-- The separator of the parts, `':'`. -/
def colon : UInt8 := 58

/-- The text `dcc:v1:` that every id starts with. -/
def versionText : Bytes := [100, 99, 99, 58, 118, 49, 58]

/-- `dcc_component_session_token_char`. -/
def tokenChar (ch : UInt8) : Bool :=
  (97 ≤ ch && ch ≤ 122) || (65 ≤ ch && ch ≤ 90) || (48 ≤ ch && ch ≤ 57) || ch == 95 || ch == 45

/-- The loop of `dcc_component_session_token_valid`, at index `len`. -/
def tokenValidFrom (maxLen : Nat) (len : Nat) : Bytes → Bool
  | [] => len ≠ 0
  | ch :: rest =>
    if len ≥ maxLen || !tokenChar ch then false else tokenValidFrom maxLen (len + 1) rest

/-- `dcc_component_session_token_valid`. -/
def tokenValid (token : Bytes) (maxLen : Nat) : Bool :=
  if token.isEmpty then false else tokenValidFrom maxLen 0 token

/-- A token that passed the check. -/
structure Token (maxLen : Nat) where
  text : Bytes
  valid : tokenValid text maxLen = true

/-- `dcc_component_session_state_t`, without the list of texts it owns.  Both
`dcc_component_session_create` and the import of a store check the session id
and the nonce before they store them. -/
structure State where
  sessionId : Token sessionIdMax
  nonce : Token nonceMax
  secret : Bytes
  expiresAtMs : UInt64
  userId : UInt64
  channelId : UInt64
  guildId : UInt64
  lockUser : Bool
  lockChannel : Bool
  lockGuild : Bool

/-- `dcc_component_session_parts_t`. -/
structure Parts where
  sessionId : Bytes
  action : Bytes
  nonce : Bytes
  sig : Bytes
  deriving DecidableEq, Repr

/-- `dcc_component_session_check_t`. -/
structure Check where
  customId : Bytes
  nowMs : UInt64
  userId : UInt64
  channelId : UInt64
  guildId : UInt64

/-- `dcc_component_session_verify_status_t`. -/
inductive VerifyStatus
  | ok
  | badFormat
  | badSignature
  | expired
  | wrongUser
  | wrongChannel
  | wrongGuild
  | notFound
  deriving DecidableEq, Repr

/-- `dcc_component_session_result_t`. -/
structure Result where
  status : VerifyStatus
  sessionId : Bytes
  action : Bytes
  nonce : Bytes
  expiresAtMs : UInt64
  deriving DecidableEq, Repr

/-- `hex[n]`, for a half byte. -/
def hexDigit (n : Nat) : UInt8 :=
  ([48, 49, 50, 51, 52, 53, 54, 55, 56, 57, 97, 98, 99, 100, 101, 102] : Bytes).getD n 0

/-- The two digits of each byte. -/
def hexText : Bytes → Bytes
  | [] => []
  | byte :: rest => hexDigit (byte.toNat / 16) :: hexDigit (byte.toNat % 16) :: hexText rest

/-- The text that is signed. -/
def signedText (sessionId action nonce : Bytes) : Bytes :=
  versionText ++ sessionId ++ colon :: action ++ colon :: nonce

/-- The whole id. -/
def customIdText (parts : Parts) : Bytes :=
  signedText parts.sessionId parts.action parts.nonce ++ colon :: parts.sig

variable (hmac : Bytes → Bytes → Option Bytes)

/-- `dcc_component_session_sign`. -/
def sign (state : State) (action nonce : Bytes) : Except Status Bytes :=
  if state.secret.isEmpty || state.secret.length > intMax then .error .invalidArg
  else
    let message := signedText state.sessionId.text action nonce
    if message.length ≥ messageSize then .error .invalidArg
    else
      match hmac state.secret message with
      | none => .error .runtime
      | some digest =>
        if digest.length < sigHexLen / 2 then .error .runtime
        else .ok (hexText (digest.take (sigHexLen / 2)))

/-- `dcc_component_session_sig_equal`: every byte is compared, and both texts
end after the last. -/
def sigEqual (a b : Bytes) : Bool :=
  (List.range sigHexLen).all (fun i => a.getD i 0 == b.getD i 0) &&
    a.getD sigHexLen 0 == 0 && b.getD sigHexLen 0 == 0

/-- `dcc_component_session_build_custom_id_heap`.  `allocated` is the outcome of
`malloc`. -/
def buildCustomId (state : State) (action : Bytes) (allocated : Bool) : Except Status Bytes :=
  if !tokenValid action actionMax then .error .invalidArg
  else
    match sign hmac state action state.nonce.text with
    | .error status => .error status
    | .ok sig =>
      let text := customIdText ⟨state.sessionId.text, action, state.nonce.text, sig⟩
      if text.length > customIdMax then .error .invalidArg
      else if !allocated then .error .nomem
      else .ok text

/-- `strchr(text, ':')`: the text before the separator and the text after it. -/
def splitColon : Bytes → Option (Bytes × Bytes)
  | [] => none
  | ch :: rest =>
    if ch = colon then some ([], rest)
    else (splitColon rest).map (fun found => (ch :: found.1, found.2))

/-- `dcc_component_session_hex_string`. -/
def hexString (value : Bytes) : Bool :=
  value.length == sigHexLen &&
    value.all (fun ch =>
      (48 ≤ ch && ch ≤ 57) || (97 ≤ ch && ch ≤ 102) || (65 ≤ ch && ch ≤ 70))

/-- `dcc_component_session_copy_part`, into a field of `dstLen` bytes. -/
def copyPart (dstLen : Nat) (part : Bytes) (maxTokenLen : Nat) : Except Status Bytes :=
  if part.length = 0 || part.length > maxTokenLen || part.length + 1 > dstLen then .error .json
  else if tokenValid part maxTokenLen then .ok part else .error .json

/-- `dcc_component_session_parse_custom_id`. -/
def parseCustomId (customId : Bytes) : Except Status Parts :=
  if !versionText.isPrefixOf customId || customId.length > customIdMax then .error .json
  else do
    let (sessionId, afterSession) ←
      (splitColon (customId.drop versionText.length)).elim (.error .json) .ok
    let (action, afterAction) ← (splitColon afterSession).elim (.error .json) .ok
    let (nonce, sig) ← (splitColon afterAction).elim (.error .json) .ok
    if (splitColon sig).isSome then .error .json
    else
      let sessionId ← copyPart (sessionIdMax + 1) sessionId sessionIdMax
      let action ← copyPart (actionMax + 1) action actionMax
      let nonce ← copyPart (nonceMax + 1) nonce nonceMax
      if sig.length ≠ sigHexLen || !hexString sig then .error .json
      else .ok ⟨sessionId, action, nonce, sig⟩

/-- `dcc_component_session_verify_parts`. -/
def verifyParts (state : Option State) (parts : Parts) (check : Check) : VerifyStatus :=
  match state with
  | none => .notFound
  | some state =>
    if state.sessionId.text ≠ parts.sessionId then .notFound
    else
      match sign hmac state parts.action parts.nonce with
      | .error _ => .badSignature
      | .ok expected =>
        if !sigEqual expected parts.sig then .badSignature
        else if check.nowMs > state.expiresAtMs then .expired
        else if state.lockUser && check.userId ≠ state.userId then .wrongUser
        else if state.lockChannel && check.channelId ≠ state.channelId then .wrongChannel
        else if state.lockGuild && check.guildId ≠ state.guildId then .wrongGuild
        else .ok

/-- `dcc_component_session_verify` on the state a session points to. -/
def verify (state : Option State) (check : Check) : Result :=
  match parseCustomId check.customId with
  | .error _ => ⟨.badFormat, [], [], [], 0⟩
  | .ok parts =>
    ⟨verifyParts hmac state parts check, parts.sessionId, parts.action, parts.nonce,
      (state.map State.expiresAtMs).getD 0⟩

section Tokens

theorem tokenValidFrom_iff (maxLen : Nat) (token : Bytes) (len : Nat) :
    tokenValidFrom maxLen len token = true ↔
      len + token.length ≠ 0 ∧ (token ≠ [] → len + token.length ≤ maxLen) ∧
        ∀ ch ∈ token, tokenChar ch = true := by
  induction token generalizing len with
  | nil => simp [tokenValidFrom]
  | cons ch rest ih =>
    simp only [tokenValidFrom, Bool.or_eq_true, decide_eq_true_eq, Bool.not_eq_true']
    split
    · next hbad =>
      refine iff_of_false (by simp) ?_
      rintro ⟨-, hfits, hchars⟩
      rcases hbad with hlong | hch
      · have := hfits (by simp)
        simp only [List.length_cons] at this
        omega
      · rw [hchars ch (by simp)] at hch
        exact absurd hch (by simp)
    · next hgood =>
      rw [ih (len + 1)]
      have hch : tokenChar ch = true := by
        by_contra hch
        exact hgood (.inr (by simpa using hch))
      have hlen : len < maxLen := by
        by_contra hlen
        exact hgood (.inl (by omega))
      constructor
      · rintro ⟨-, hfits, hchars⟩
        refine ⟨by simp, ?_, ?_⟩
        · intro _
          by_cases hrest : rest = []
          · simp only [hrest, List.length_cons, List.length_nil]
            omega
          · have := hfits hrest
            simp only [List.length_cons]
            omega
        · intro c hc
          rcases List.mem_cons.mp hc with rfl | hc
          · exact hch
          · exact hchars c hc
      · rintro ⟨-, hfits, hchars⟩
        refine ⟨by omega, ?_, fun c hc => hchars c (List.mem_cons_of_mem _ hc)⟩
        intro _
        have := hfits (by simp)
        simp only [List.length_cons] at this
        omega

theorem tokenValid_iff (token : Bytes) (maxLen : Nat) :
    tokenValid token maxLen = true ↔
      token ≠ [] ∧ token.length ≤ maxLen ∧ ∀ ch ∈ token, tokenChar ch = true := by
  unfold tokenValid
  split
  · next hempty =>
    refine iff_of_false (by simp) ?_
    rintro ⟨hne, -⟩
    exact hne (by simpa using hempty)
  · next hne =>
    rw [tokenValidFrom_iff]
    have hne' : token ≠ [] := by simpa using hne
    simp [hne']

theorem colon_notMem_of_tokenValid {token : Bytes} {maxLen : Nat}
    (h : tokenValid token maxLen = true) : colon ∉ token := by
  intro hmem
  have := ((tokenValid_iff _ _).mp h).2.2 colon hmem
  exact absurd this (by decide)

theorem copyPart_ok_iff {part copied : Bytes} {maxLen : Nat} :
    copyPart (maxLen + 1) part maxLen = .ok copied ↔
      copied = part ∧ tokenValid part maxLen = true := by
  unfold copyPart
  split
  · next hbad =>
    refine iff_of_false (by simp) ?_
    rintro ⟨-, hvalid⟩
    obtain ⟨hne, hfits, -⟩ := (tokenValid_iff _ _).mp hvalid
    have hpos := List.length_pos_iff.mpr hne
    simp only [Bool.or_eq_true, decide_eq_true_eq] at hbad
    omega
  · split
    · next hvalid => simp [hvalid, eq_comm]
    · next hvalid => simp [hvalid]

end Tokens

section Hex

theorem hexDigit_range : ∀ n < 16,
    (48 ≤ hexDigit n ∧ hexDigit n ≤ 57) ∨ (97 ≤ hexDigit n ∧ hexDigit n ≤ 102) := by
  decide

theorem hexText_length (bytes : Bytes) : (hexText bytes).length = 2 * bytes.length := by
  induction bytes with
  | nil => rfl
  | cons byte rest ih =>
    simp only [hexText, List.length_cons, ih]
    omega

theorem hexText_range (bytes : Bytes) : ∀ ch ∈ hexText bytes,
    (48 ≤ ch ∧ ch ≤ 57) ∨ (97 ≤ ch ∧ ch ≤ 102) := by
  induction bytes with
  | nil => simp [hexText]
  | cons byte rest ih =>
    have hbyte : byte.toNat < 256 := byte.toNat_lt
    intro ch hch
    simp only [hexText, List.mem_cons] at hch
    rcases hch with rfl | rfl | hch
    · exact hexDigit_range _ (by omega)
    · exact hexDigit_range _ (by omega)
    · exact ih ch hch

theorem sign_ok {state : State} {action nonce sig : Bytes}
    (h : sign hmac state action nonce = .ok sig) :
    sig.length = sigHexLen ∧ hexString sig = true ∧ colon ∉ sig := by
  have hsig : ∃ digest : Bytes, sigHexLen / 2 ≤ digest.length ∧
      sig = hexText (digest.take (sigHexLen / 2)) := by
    unfold sign at h
    grind
  obtain ⟨digest, hlong, rfl⟩ := hsig
  have hlen : (hexText (digest.take (sigHexLen / 2))).length = sigHexLen := by
    rw [hexText_length, List.length_take, Nat.min_eq_left hlong]
    rfl
  have hrange := hexText_range (digest.take (sigHexLen / 2))
  refine ⟨hlen, ?_, ?_⟩
  · simp only [hexString, hlen, beq_self_eq_true, Bool.true_and, List.all_eq_true,
      Bool.or_eq_true, Bool.and_eq_true, decide_eq_true_eq]
    intro ch hch
    exact .inl (hrange ch hch)
  · intro hmem
    exact absurd (hrange colon hmem) (by decide)

theorem sigEqual_iff {a b : Bytes} (ha : a.length = sigHexLen) (hb : b.length = sigHexLen) :
    sigEqual a b = true ↔ a = b := by
  have hend : ∀ c : Bytes, c.length = sigHexLen → c.getD sigHexLen 0 = 0 := by
    intro c hc
    rw [List.getD_eq_default _ _ (by omega)]
  simp only [sigEqual, hend a ha, hend b hb, beq_self_eq_true, Bool.and_true, List.all_eq_true,
    List.mem_range, beq_iff_eq]
  constructor
  · intro hall
    refine List.ext_getElem (by omega) ?_
    intro i hia hib
    have := hall i (by omega)
    rwa [List.getD_eq_getElem _ _ hia, List.getD_eq_getElem _ _ hib] at this
  · rintro rfl i -
    rfl

end Hex

section Create

theorem hexText_tokenValid (raw : Vector UInt8 8) : tokenValid (hexText raw.toList) 16 = true := by
  have hlen : (hexText raw.toList).length = 16 := by simp [hexText_length]
  refine (tokenValid_iff _ _).mpr ⟨?_, by omega, ?_⟩
  · intro hnil
    simp [hnil] at hlen
  · intro ch hch
    have hrange := hexText_range _ ch hch
    simp only [tokenChar, Bool.or_eq_true, Bool.and_eq_true, decide_eq_true_eq]
    rcases hrange with hdigit | ⟨hlow, hhigh⟩
    · exact .inl (.inl (.inr hdigit))
    · exact .inl (.inl (.inl (.inl ⟨hlow, UInt8.le_trans hhigh (by decide)⟩)))

/-- `dcc_component_session_make_random_hex` for sixteen digits; `raw` is what
`RAND_bytes` came back with. -/
def makeRandomHex (raw : Option (Vector UInt8 8)) : Except Status (Token 16) :=
  match raw with
  | none => .error .runtime
  | some raw => .ok ⟨hexText raw.toList, hexText_tokenValid raw⟩

/-- The check of a token that the caller may leave out. -/
def checkedToken (given : Option Bytes) (maxLen : Nat) :
    Except Status (Option (Token maxLen)) :=
  match given with
  | none => .ok none
  | some text =>
    if h : tokenValid text maxLen = true then .ok (some ⟨text, h⟩) else .error .invalidArg

/-- `dcc_component_session_options_t`. -/
structure Options where
  secret : Bytes
  sessionId : Option Bytes
  nonce : Option Bytes
  nowMs : UInt64
  ttlMs : UInt64
  userId : UInt64
  channelId : UInt64
  guildId : UInt64
  lockUser : Bool
  lockChannel : Bool
  lockGuild : Bool

/-- `dcc_component_session_create`: where a state comes from.  The outcomes of the
allocations and of the random generator are inputs. -/
def create (options : Options) (rawId rawNonce : Option (Vector UInt8 8)) (allocated : Bool) :
    Except Status State :=
  if options.secret.isEmpty || options.ttlMs == 0 ||
      options.nowMs > 0xFFFFFFFFFFFFFFFF - options.ttlMs then .error .invalidArg
  else do
    let sessionId ← checkedToken options.sessionId sessionIdMax
    let nonce ← checkedToken options.nonce nonceMax
    if !allocated then .error .nomem
    else
      let sessionId ← sessionId.elim (makeRandomHex rawId) .ok
      let nonce ← nonce.elim (makeRandomHex rawNonce) .ok
      .ok
        { sessionId, nonce
          secret := options.secret
          expiresAtMs := options.nowMs + options.ttlMs
          userId := options.userId
          channelId := options.channelId
          guildId := options.guildId
          lockUser := options.lockUser
          lockChannel := options.lockChannel
          lockGuild := options.lockGuild }

end Create

section Parse

theorem elim_ok {α : Type} {x : Option α} {a : α}
    (h : x.elim (.error Status.json) Except.ok = .ok a) : x = some a := by
  cases x with
  | none => simp at h
  | some b => exact congrArg some (Except.ok.inj h)

theorem splitColon_append {before : Bytes} (after : Bytes) (h : colon ∉ before) :
    splitColon (before ++ colon :: after) = some (before, after) := by
  induction before with
  | nil => simp [splitColon]
  | cons ch rest ih =>
    obtain ⟨hch, hrest⟩ := not_or.mp (mt List.mem_cons.mpr h)
    simp [splitColon, Ne.symm hch, ih hrest]

theorem splitColon_some {text before after : Bytes}
    (h : splitColon text = some (before, after)) : text = before ++ colon :: after := by
  induction text generalizing before with
  | nil => simp [splitColon] at h
  | cons ch rest ih =>
    unfold splitColon at h
    split at h
    · next hch =>
      obtain ⟨rfl, rfl⟩ := Prod.mk.inj (Option.some.inj h)
      simp [hch]
    · obtain ⟨found, hfound, heq⟩ := Option.map_eq_some_iff.mp h
      obtain ⟨rfl, rfl⟩ := Prod.mk.inj heq
      rw [ih hfound, List.cons_append]

theorem splitColon_none {text : Bytes} (h : colon ∉ text) : splitColon text = none := by
  induction text with
  | nil => rfl
  | cons ch rest ih =>
    obtain ⟨hch, hrest⟩ := not_or.mp (mt List.mem_cons.mpr h)
    simp [splitColon, Ne.symm hch, ih hrest]

/-- The parts are what the parser promises of them. -/
structure Parts.Valid (parts : Parts) : Prop where
  sessionId : tokenValid parts.sessionId sessionIdMax = true
  action : tokenValid parts.action actionMax = true
  nonce : tokenValid parts.nonce nonceMax = true
  sigLength : parts.sig.length = sigHexLen
  sigHex : hexString parts.sig = true

theorem Parts.Valid.length_le {parts : Parts} (h : parts.Valid) :
    (signedText parts.sessionId parts.action parts.nonce).length < messageSize ∧
      (customIdText parts).length ≤ customIdMax := by
  have hsession := ((tokenValid_iff _ _).mp h.sessionId).2.1
  have haction := ((tokenValid_iff _ _).mp h.action).2.1
  have hnonce := ((tokenValid_iff _ _).mp h.nonce).2.1
  have hsig := h.sigLength
  simp only [customIdText, signedText, versionText, List.length_append, List.length_cons,
    List.length_nil, messageSize, customIdMax, sessionIdMax, actionMax, nonceMax,
    sigHexLen] at *
  omega

theorem colon_notMem_of_hexString {sig : Bytes} (h : hexString sig = true) : colon ∉ sig := by
  intro hmem
  simp only [hexString, Bool.and_eq_true, List.all_eq_true] at h
  exact absurd (h.2 colon hmem) (by decide)

/-- **The texts that parse are those the builder's format gives, and the parts
are read back as they were put in.** -/
theorem parseCustomId_iff (customId : Bytes) (parts : Parts) :
    parseCustomId customId = .ok parts ↔ customId = customIdText parts ∧ parts.Valid := by
  constructor
  · intro h
    unfold parseCustomId at h
    split at h
    · simp at h
    · next hstart =>
      simp only [Bool.or_eq_true, Bool.not_eq_true', decide_eq_true_eq, not_or,
        Bool.not_eq_false, List.isPrefixOf_iff_prefix] at hstart
      obtain ⟨⟨tail, rfl⟩, -⟩ := hstart
      rw [List.drop_left] at h
      obtain ⟨⟨sessionId, afterSession⟩, hsession, h₁⟩ := bind_ok h
      obtain ⟨⟨action, afterAction⟩, haction, h₂⟩ := bind_ok h₁
      obtain ⟨⟨nonce, sig⟩, hnonce, h₃⟩ := bind_ok h₂
      clear h h₁ h₂
      simp only at h₃
      split at h₃
      · simp at h₃
      · obtain ⟨sessionId', hcopy, h₄⟩ := bind_ok h₃
        obtain ⟨action', hcopy', h₅⟩ := bind_ok h₄
        obtain ⟨nonce', hcopy'', h₆⟩ := bind_ok h₅
        clear h₃ h₄ h₅
        obtain ⟨rfl, hsessionValid⟩ := copyPart_ok_iff.mp hcopy
        obtain ⟨rfl, hactionValid⟩ := copyPart_ok_iff.mp hcopy'
        obtain ⟨rfl, hnonceValid⟩ := copyPart_ok_iff.mp hcopy''
        split at h₆
        · simp at h₆
        · next hsig =>
          simp only [Bool.or_eq_true, decide_eq_true_eq, Bool.not_eq_true', not_or, not_not,
            Bool.not_eq_false] at hsig
          obtain rfl := Except.ok.inj h₆
          have htail := splitColon_some (elim_ok hsession)
          have htail' := splitColon_some (elim_ok haction)
          have htail'' := splitColon_some (elim_ok hnonce)
          refine ⟨?_, hsessionValid, hactionValid, hnonceValid, hsig.1, hsig.2⟩
          simp [customIdText, signedText, htail, htail', htail'']
  · rintro ⟨rfl, hvalid⟩
    have hlen := hvalid.length_le.2
    have htext : customIdText parts = versionText ++ (parts.sessionId ++ colon ::
        (parts.action ++ colon :: (parts.nonce ++ colon :: parts.sig))) := by
      simp [customIdText, signedText]
    have hstart : versionText.isPrefixOf (customIdText parts) = true := by
      rw [List.isPrefixOf_iff_prefix, htext]
      exact List.prefix_append _ _
    unfold parseCustomId
    rw [if_neg (by simp [hstart, hlen]), htext, List.drop_left,
      splitColon_append _ (colon_notMem_of_tokenValid hvalid.sessionId)]
    simp only [Option.elim, bind, Except.bind]
    rw [splitColon_append _ (colon_notMem_of_tokenValid hvalid.action)]
    simp only
    rw [splitColon_append _ (colon_notMem_of_tokenValid hvalid.nonce)]
    simp only
    rw [splitColon_none (colon_notMem_of_hexString hvalid.sigHex),
      copyPart_ok_iff.mpr ⟨rfl, hvalid.sessionId⟩, copyPart_ok_iff.mpr ⟨rfl, hvalid.action⟩,
      copyPart_ok_iff.mpr ⟨rfl, hvalid.nonce⟩]
    simp [hvalid.sigLength, hvalid.sigHex]

end Parse

section Verify

/-- The session is still running and every lock it has matches the interaction. -/
def Admits (state : State) (check : Check) : Prop :=
  check.nowMs ≤ state.expiresAtMs ∧ (state.lockUser = true → check.userId = state.userId) ∧
    (state.lockChannel = true → check.channelId = state.channelId) ∧
    (state.lockGuild = true → check.guildId = state.guildId)

/-- The session with another nonce. -/
def State.withNonce (state : State) (nonce : Token nonceMax) : State := { state with nonce }

theorem buildCustomId_ok_iff (state : State) (action customId : Bytes) :
    buildCustomId hmac state action true = .ok customId ↔
      ∃ sig, sign hmac state action state.nonce.text = .ok sig ∧
        (⟨state.sessionId.text, action, state.nonce.text, sig⟩ : Parts).Valid ∧
        customId = customIdText ⟨state.sessionId.text, action, state.nonce.text, sig⟩ := by
  unfold buildCustomId
  constructor
  · intro h
    split at h
    · simp at h
    · next hvalid =>
      split at h
      · simp at h
      · next sig hsign =>
        obtain ⟨hlen, hhex, -⟩ := sign_ok hmac hsign
        simp only [Bool.not_true, Bool.false_eq_true, if_false] at h
        split at h
        · simp at h
        · exact ⟨sig, hsign, ⟨state.sessionId.valid, by simpa using hvalid,
            state.nonce.valid, hlen, hhex⟩, (Except.ok.inj h).symm⟩
  · rintro ⟨sig, hsign, hvalid, rfl⟩
    have hlen := hvalid.length_le.2
    simp [hvalid.action, hsign, Nat.not_lt.mpr hlen]

theorem verifyParts_ok_iff (state : State) (parts : Parts) (check : Check) :
    verifyParts hmac (some state) parts check = .ok ↔ state.sessionId.text = parts.sessionId ∧
        (∃ expected, sign hmac state parts.action parts.nonce = .ok expected ∧
          sigEqual expected parts.sig = true) ∧ Admits state check := by
  unfold verifyParts Admits
  simp only [← UInt64.not_lt]
  cases hsign : sign hmac state parts.action parts.nonce with
  | error status => grind
  | ok expected => grind

/-- **What `verify` accepts**: a text built for the session with some nonce, while
the session runs and its locks match. -/
theorem verify_ok_iff (state : State) (check : Check) :
    (verify hmac (some state) check).status = .ok ↔
      (∃ nonce action, buildCustomId hmac (state.withNonce nonce) action true
        = .ok check.customId) ∧ Admits state check := by
  unfold verify
  constructor
  · intro h
    cases hparse : parseCustomId check.customId with
    | error status => simp [hparse] at h
    | ok parts =>
      simp only [hparse] at h
      obtain ⟨htext, hvalid⟩ := (parseCustomId_iff _ _).mp hparse
      obtain ⟨hsession, ⟨expected, hsign, heq⟩, hadmits⟩ := (verifyParts_ok_iff _ _ _ _).mp h
      obtain rfl := (sigEqual_iff (sign_ok hmac hsign).1 hvalid.sigLength).mp heq
      refine ⟨⟨⟨parts.nonce, hvalid.nonce⟩, parts.action, ?_⟩, hadmits⟩
      refine (buildCustomId_ok_iff _ _ _ _).mpr ⟨parts.sig, hsign, ?_, ?_⟩
      · simpa [State.withNonce, hsession] using hvalid
      · simpa [State.withNonce, hsession] using htext
  · rintro ⟨⟨nonce, action, hbuild⟩, hadmits⟩
    obtain ⟨sig, hsign, hvalid, htext⟩ := (buildCustomId_ok_iff _ _ _ _).mp hbuild
    have hparse := (parseCustomId_iff _ _).mpr ⟨htext, hvalid⟩
    have hlen := (sign_ok hmac hsign).1
    simp only [hparse]
    exact (verifyParts_ok_iff _ _ _ _).mpr
      ⟨rfl, ⟨sig, hsign, (sigEqual_iff hlen hlen).mpr rfl⟩, hadmits⟩

/-- Acceptance means that the text is the one built for this very state, in time
and with the locks matching, and a text built with another nonce of the session
is not accepted. -/
def Authentic (state : State) (check : Check) : Prop :=
  ((verify hmac (some state) check).status = .ok →
    (∃ action, buildCustomId hmac state action true = .ok check.customId) ∧ Admits state check) ∧
  ∀ nonce : Token nonceMax, nonce.text ≠ state.nonce.text →
    ∀ action, buildCustomId hmac (state.withNonce nonce) action true = .ok check.customId →
      (verify hmac (some state) check).status ≠ .ok

/-- **Acceptance is authentic exactly when the text was not built with another
nonce of the session, or the session no longer admits the interaction.** -/
theorem verify_authentic_iff (state : State) (check : Check) :
    Authentic hmac state check ↔ ¬ ((∃ nonce : Token nonceMax, nonce.text ≠ state.nonce.text ∧
          ∃ action, buildCustomId hmac (state.withNonce nonce) action true = .ok check.customId) ∧
        Admits state check) := by
  constructor
  · rintro ⟨-, hreject⟩ ⟨⟨nonce, hne, action, hbuild⟩, hadmits⟩
    exact hreject nonce hne action hbuild
      ((verify_ok_iff _ _ _).mpr ⟨⟨nonce, action, hbuild⟩, hadmits⟩)
  · intro hother
    constructor
    · intro hok
      obtain ⟨⟨nonce, action, hbuild⟩, hadmits⟩ := (verify_ok_iff _ _ _).mp hok
      refine ⟨⟨action, ?_⟩, hadmits⟩
      by_cases hnonce : nonce.text = state.nonce.text
      · have hsame : state.withNonce nonce = state := by
          cases state
          cases nonce
          simp_all [State.withNonce]
        rwa [hsame] at hbuild
      · exact absurd ⟨⟨nonce, hnonce, action, hbuild⟩, hadmits⟩ hother
    · intro nonce hne action hbuild hok
      obtain ⟨-, hadmits⟩ := (verify_ok_iff _ _ _).mp hok
      exact hother ⟨⟨nonce, hne, action, hbuild⟩, hadmits⟩

/-- HMAC-SHA256 at the key `component-session-secret` and the text
`dcc:v1:sess123:next:nonce122`. -/
def sampleHmac (key message : Bytes) : Option Bytes :=
  if key = [99, 111, 109, 112, 111, 110, 101, 110, 116, 45, 115, 101, 115, 115, 105, 111, 110, 45, 115,
      101, 99, 114, 101, 116] ∧
      message = [100, 99, 99, 58, 118, 49, 58, 115, 101, 115, 115, 49, 50, 51, 58, 110, 101, 120, 116, 58,
        110, 111, 110, 99, 101, 49, 50, 50] then
    some [96, 196, 227, 26, 206, 20, 88, 37, 254, 118, 162, 58, 75, 76, 109, 228, 207, 33, 23, 2,
      16, 179, 169, 47, 181, 91, 91, 163, 172, 228, 147, 251]
  else none

/-- The options of a session `sess123` with the given nonce, from 1000 ms for
5000 ms, locked to user 42, channel 99 and guild 7. -/
def sampleOptions (nonce : Bytes) : Options :=
  { secret := [99, 111, 109, 112, 111, 110, 101, 110, 116, 45, 115, 101, 115, 115, 105, 111, 110, 45, 115,
      101, 99, 114, 101, 116]
    sessionId := some [115, 101, 115, 115, 49, 50, 51]
    nonce := some nonce
    nowMs := 1000
    ttlMs := 5000
    userId := 42
    channelId := 99
    guildId := 7
    lockUser := true
    lockChannel := true
    lockGuild := true }

/-- A button of nonce `nonce122` still works after the session was made anew with
`nonce123`. -/
theorem old_nonce_accepted :
    ∃ old state customId,
      create (sampleOptions [110, 111, 110, 99, 101, 49, 50, 50]) none none true = .ok old ∧
      create (sampleOptions [110, 111, 110, 99, 101, 49, 50, 51]) none none true = .ok state ∧
      buildCustomId sampleHmac old [110, 101, 120, 116] true = .ok customId ∧
      ¬ Authentic sampleHmac state ⟨customId, 2000, 42, 99, 7⟩ := by
  refine ⟨_, _, _, rfl, rfl, rfl, ?_⟩
  rintro ⟨-, hreject⟩
  exact hreject ⟨[110, 111, 110, 99, 101, 49, 50, 50], by decide⟩ (by decide)
    [110, 101, 120, 116] rfl (by decide)

end Verify

end Dcc.Session
