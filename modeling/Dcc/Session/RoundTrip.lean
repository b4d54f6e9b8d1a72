import Dcc.Session.ComponentSession

/-!
# Component ids come back

An id that a session builds for an action is parsed into the parts it was built
from, and the session accepts it until it expires, wherever its locks match.
Signing refuses a secret of more than `INT_MAX` bytes, which `create` takes, so
this is about the sessions whose secret is not longer.

* `parseCustomId_grammar` — the texts that parse are those of the grammar;
* `buildCustomId_total` — an id is built for every valid action, and it is short
  enough;
* `customId_roundtrip` — both, with the way back.
-/

namespace Dcc.Session

/-! ## The grammar -/

/-- `ALPHA / DIGIT / "_" / "-"`. -/
def Permitted (ch : UInt8) : Prop :=
  (0x61 ≤ ch ∧ ch ≤ 0x7a) ∨ (0x41 ≤ ch ∧ ch ≤ 0x5a) ∨ (0x30 ≤ ch ∧ ch ≤ 0x39) ∨ ch = 0x5f ∨ ch = 0x2d

/-- `1*max permitted`. -/
def Word (max : Nat) (text : Bytes) : Prop :=
  1 ≤ text.length ∧ text.length ≤ max ∧ ∀ ch ∈ text, Permitted ch

/-- `16HEXDIG`. -/
def HexWord (text : Bytes) : Prop :=
  text.length = 16 ∧
    ∀ ch ∈ text, (0x30 ≤ ch ∧ ch ≤ 0x39) ∨ (0x61 ≤ ch ∧ ch ≤ 0x66) ∨ (0x41 ≤ ch ∧ ch ≤ 0x46)

/-- `"dcc:v1:" session ":" action ":" nonce ":" signature`. -/
def Grammatical (text : Bytes) : Prop :=
  ∃ session action nonce signature,
    text = asciiText "dcc:v1:" ++ session ++ [0x3a] ++ action ++ [0x3a] ++ nonce ++ [0x3a] ++
      signature ∧
    Word 16 session ∧ Word 32 action ∧ Word 16 nonce ∧ HexWord signature

theorem tokenChar_iff (ch : UInt8) : tokenChar ch = true ↔ Permitted ch := by
  simp only [tokenChar, Permitted, Bool.or_eq_true, Bool.and_eq_true, decide_eq_true_eq,
    beq_iff_eq, or_assoc]

theorem tokenValid_iff_word (token : Bytes) (max : Nat) :
    tokenValid token max = true ↔ Word max token := by
  rw [tokenValid_iff, Word, ← List.length_pos_iff]
  simp only [tokenChar_iff]
  rfl

theorem hexString_iff (value : Bytes) : hexString value = true ↔ HexWord value := by
  simp only [hexString, HexWord, Bool.and_eq_true, beq_iff_eq, List.all_eq_true, Bool.or_eq_true,
    decide_eq_true_eq, or_assoc]
  rfl

/-- **The parser accepts the grammar and nothing else.** -/
theorem parseCustomId_grammar (text : Bytes) :
    (∃ parts, parseCustomId text = .ok parts) ↔ Grammatical text := by
  constructor
  · intro h
    obtain ⟨parts, hparse⟩ := h
    obtain ⟨htext, hvalid⟩ := (parseCustomId_iff text parts).mp hparse
    refine ⟨parts.sessionId, parts.action, parts.nonce, parts.sig, ?_,
      (tokenValid_iff_word _ _).mp hvalid.sessionId, (tokenValid_iff_word _ _).mp hvalid.action,
      (tokenValid_iff_word _ _).mp hvalid.nonce, (hexString_iff _).mp hvalid.sigHex⟩
    rw [htext, customIdText, signedText]
    simp [versionText, colon, asciiText]
  · intro h
    obtain ⟨session, action, nonce, signature, htext, hsession, haction, hnonce, hsignature⟩ := h
    refine ⟨⟨session, action, nonce, signature⟩, (parseCustomId_iff _ _).mpr ⟨?_, ?_⟩⟩
    · rw [htext, customIdText, signedText]
      simp [versionText, colon, asciiText]
    · exact
        { sessionId := (tokenValid_iff_word _ _).mpr hsession
          action := (tokenValid_iff_word _ _).mpr haction
          nonce := (tokenValid_iff_word _ _).mpr hnonce
          sigLength := hsignature.1
          sigHex := (hexString_iff _).mpr hsignature }

/-! ## There and back -/

/-- `dcc_component_session_custom_id`: the id goes into a buffer of `outLen` bytes. -/
def customId (hmac : Bytes → Bytes → Option Bytes) (state : State) (action : Bytes)
    (outLen : Nat) (allocated : Bool) : Except Status Bytes :=
  if outLen = 0 then .error .invalidArg
  else
    match buildCustomId hmac state action allocated with
    | .error status => .error status
    | .ok text => if text.length + 1 > outLen then .error .invalidArg else .ok text

/-- What HMAC-SHA256 gives for every key and message: a digest of 32 bytes. -/
def Digests (hmac : Bytes → Bytes → Option Bytes) : Prop :=
  ∀ key message, ∃ digest, hmac key message = some digest ∧ digest.length = 32

section

variable {hmac : Bytes → Bytes → Option Bytes} {state : State} {action : Bytes}

theorem create_secret {options : Options} {rawId rawNonce : Option (Vector UInt8 8)}
    {allocated : Bool} (h : create options rawId rawNonce allocated = .ok state) :
    state.secret = options.secret ∧ options.secret ≠ [] := by
  unfold create at h
  split at h
  · cases h
  · next hgood =>
    simp only [Bool.or_eq_true, List.isEmpty_iff, not_or] at hgood
    obtain ⟨sessionId, -, h⟩ := bind_ok h
    obtain ⟨nonce, -, h⟩ := bind_ok h
    split at h
    · cases h
    · obtain ⟨sessionId', -, h⟩ := bind_ok h
      obtain ⟨nonce', -, h⟩ := bind_ok h
      cases h
      exact ⟨rfl, hgood.1.1⟩

theorem sign_total (hhmac : Digests hmac) (hne : state.secret ≠ [])
    (hlen : state.secret.length ≤ intMax) (haction : tokenValid action actionMax = true) :
    ∃ sig, sign hmac state action state.nonce.text = .ok sig := by
  have hsession := ((tokenValid_iff _ _).mp state.sessionId.valid).2.1
  have haction' := ((tokenValid_iff _ _).mp haction).2.1
  have hnonce := ((tokenValid_iff _ _).mp state.nonce.valid).2.1
  have hmessage : ¬ (signedText state.sessionId.text action state.nonce.text).length ≥
      messageSize := by
    simp only [signedText, versionText, List.length_append, List.length_cons, List.length_nil,
      messageSize, sessionIdMax, actionMax, nonceMax] at *
    omega
  obtain ⟨digest, hdigest, hlong⟩ :=
    hhmac state.secret (signedText state.sessionId.text action state.nonce.text)
  have hsecret : ¬ (state.secret.isEmpty || decide (state.secret.length > intMax)) = true := by
    simp [hne, hlen]
  have hdigits : ¬ digest.length < sigHexLen / 2 := by
    simp [hlong, sigHexLen]
  refine ⟨hexText (digest.take (sigHexLen / 2)), ?_⟩
  simp only [sign, if_neg hsecret, if_neg hmessage, hdigest, if_neg hdigits]

/-- **An id is built for every valid action**, of the parts of the session, and it is never
too long. -/
theorem buildCustomId_total (hhmac : Digests hmac) (hne : state.secret ≠ [])
    (hlen : state.secret.length ≤ intMax) (haction : tokenValid action actionMax = true) :
    ∃ sig, sign hmac state action state.nonce.text = .ok sig ∧
      (⟨state.sessionId.text, action, state.nonce.text, sig⟩ : Parts).Valid ∧
      buildCustomId hmac state action true =
        .ok (customIdText ⟨state.sessionId.text, action, state.nonce.text, sig⟩) := by
  obtain ⟨sig, hsign⟩ := sign_total hhmac hne hlen haction
  obtain ⟨hsigLen, hhex, -⟩ := sign_ok hmac hsign
  have hvalid : (⟨state.sessionId.text, action, state.nonce.text, sig⟩ : Parts).Valid :=
    ⟨state.sessionId.valid, haction, state.nonce.valid, hsigLen, hhex⟩
  exact ⟨sig, hsign, hvalid,
    (buildCustomId_ok_iff hmac state action _).mpr ⟨sig, hsign, hvalid, rfl⟩⟩

theorem verify_built {sig : Bytes} (hsign : sign hmac state action state.nonce.text = .ok sig)
    (hvalid : (⟨state.sessionId.text, action, state.nonce.text, sig⟩ : Parts).Valid)
    {check : Check}
    (hcheck : check.customId = customIdText ⟨state.sessionId.text, action, state.nonce.text, sig⟩)
    (hadmits : Admits state check) :
    verify hmac (some state) check =
      ⟨.ok, state.sessionId.text, action, state.nonce.text, state.expiresAtMs⟩ := by
  have hparse := (parseCustomId_iff _ _).mpr ⟨hcheck, hvalid⟩
  have hok := (verify_ok_iff hmac state check).mpr
    ⟨⟨state.nonce, action, (buildCustomId_ok_iff hmac _ _ _).mpr ⟨sig, hsign, hvalid, hcheck⟩⟩,
      hadmits⟩
  simp only [verify, hparse] at hok ⊢
  rw [hok]
  rfl

end

/-- **Ids come back.**  For a session that the library created with a secret of at most
`INT_MAX` bytes and for every valid action, the id is built, fits the limit and every
buffer of that size, is parsed, and is accepted in time and in a matching context with the
action it was built for.  The texts that parse are those of the grammar. -/
theorem customId_roundtrip (hmac : Bytes → Bytes → Option Bytes) (hhmac : Digests hmac)
    {options : Options} {rawId rawNonce : Option (Vector UInt8 8)} {allocated : Bool}
    {state : State} (hcreate : create options rawId rawNonce allocated = .ok state)
    (hsecret : options.secret.length ≤ intMax) :
    (∀ action, tokenValid action actionMax = true → ∃ id,
      buildCustomId hmac state action true = .ok id ∧ id.length ≤ customIdMax ∧
      (∀ outLen, customIdMax < outLen → customId hmac state action outLen true = .ok id) ∧
      (∃ sig, parseCustomId id = .ok ⟨state.sessionId.text, action, state.nonce.text, sig⟩) ∧
      ∀ check, check.customId = id → Admits state check → verify hmac (some state) check =
          ⟨.ok, state.sessionId.text, action, state.nonce.text, state.expiresAtMs⟩) ∧
    ∀ text, (∃ parts, parseCustomId text = .ok parts) ↔ Grammatical text := by
  obtain ⟨hsame, hne⟩ := create_secret hcreate
  rw [← hsame] at hne hsecret
  refine ⟨fun action haction => ?_, parseCustomId_grammar⟩
  obtain ⟨sig, hsign, hvalid, hbuild⟩ := buildCustomId_total hhmac hne hsecret haction
  have hlen := hvalid.length_le.2
  refine ⟨_, hbuild, hlen, fun outLen hout => ?_, ⟨sig, (parseCustomId_iff _ _).mpr ⟨rfl, hvalid⟩⟩,
    fun check hcheck hadmits => verify_built hsign hvalid hcheck hadmits⟩
  rw [customId, if_neg (by omega), hbuild]
  exact if_neg (by omega)

/-- `sampleHmac` where it says what HMAC-SHA256 gives, zeros elsewhere. -/
def totalHmac (key message : Bytes) : Option Bytes :=
  some ((sampleHmac key message).getD (List.replicate 32 0))

theorem totalHmac_digests : Digests totalHmac := by
  intro key message
  refine ⟨_, rfl, ?_⟩
  unfold sampleHmac
  split <;> rfl

/-- The session of `sampleOptions` and the nonce `nonce122`. -/
def sampleState : State where
  sessionId := ⟨asciiText "sess123", by decide⟩
  nonce := ⟨asciiText "nonce122", by decide⟩
  secret := (sampleOptions []).secret
  expiresAtMs := 6000
  userId := 42
  channelId := 99
  guildId := 7
  lockUser := true
  lockChannel := true
  lockGuild := true

theorem customId_roundtrip_next :
    create (sampleOptions (asciiText "nonce122")) none none true = .ok sampleState ∧
      ∃ id, buildCustomId totalHmac sampleState (asciiText "next") true = .ok id ∧
        verify totalHmac (some sampleState) ⟨id, 2000, 42, 99, 7⟩ =
          ⟨.ok, asciiText "sess123", asciiText "next", asciiText "nonce122", 6000⟩ := by
  have hcreate : create (sampleOptions (asciiText "nonce122")) none none true =
      .ok sampleState := rfl
  obtain ⟨hids, -⟩ := customId_roundtrip totalHmac totalHmac_digests hcreate (by decide)
  obtain ⟨id, hbuild, -, -, -, hverify⟩ := hids (asciiText "next") (by decide)
  have hnow : (2000 : UInt64) ≤ 6000 := by decide
  exact ⟨hcreate, id, hbuild,
    hverify ⟨id, 2000, 42, 99, 7⟩ rfl ⟨hnow, fun _ => rfl, fun _ => rfl, fun _ => rfl⟩⟩

/-- The options of `sampleOptions` with a secret of one byte more than `INT_MAX`. -/
def hugeOptions : Options :=
  { sampleOptions (asciiText "nonce122") with secret := List.replicate (intMax + 1) 0 }

/-- A session is created with a secret that nothing is signed with. -/
theorem customId_huge_secret :
    tokenValid (asciiText "next") actionMax = true ∧
      ∃ state, create hugeOptions none none true = .ok state ∧
        ∀ hmac, buildCustomId hmac state (asciiText "next") true = .error .invalidArg := by
  refine ⟨by decide, { sampleState with secret := List.replicate (intMax + 1) 0 }, ?_, ?_⟩
  · have hgood : ¬ (hugeOptions.secret.isEmpty || hugeOptions.ttlMs == 0 ||
        decide (hugeOptions.nowMs > 0xFFFFFFFFFFFFFFFF - hugeOptions.ttlMs)) = true := by
      have hne : hugeOptions.secret.isEmpty = false := by
        rw [List.isEmpty_eq_false_iff, ← List.length_pos_iff]
        simp [hugeOptions]
      rw [hne]
      decide
    rw [create, if_neg hgood]
    rfl
  · intro hmac
    have haction : ¬ (!tokenValid (asciiText "next") actionMax) = true := by decide
    rw [buildCustomId, if_neg haction, sign, if_pos (by simp)]

end Dcc.Session
