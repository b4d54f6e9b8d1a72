import Dcc.Voice.MediaView
import Dcc.Voice.Ssrc
import Dcc.Voice.Streams

/-!
# A sent RTP packet on the receiving side

The send path writes a header of twelve bytes, the payload or its ciphertext,
and with encryption four bytes of nonce.  The receive path finds the same spans
by its own arithmetic: it parses a media view, takes the nonce from the end of
the packet, decrypts into a buffer of `pcmBufferCap` bytes and cuts off the words
of an encrypted extension.  The cipher itself is a parameter of which one thing
is known, that opening undoes sealing.

* `rtp_roundtrip` — a built packet comes out as the payload, SSRC and sequence
  number it was built from, over the same authenticated bytes and nonce;
* `processRtpPacket_oversized` — a payload longer than the buffer is sealed all the same,
  and its packet refused.
-/

namespace Dcc.Voice

/-- `DCC_VOICE_PCM_BUFFER_CAP`. -/
def pcmBufferCap : Nat := 65536

/-- `INT_MAX`, the longest input of the cipher. -/
def evpInputMax : Nat := 2 ^ 31 - 1

/-- XChaCha20-Poly1305 over key, nonce, associated data and input, as OpenSSL
comes back with it; the tag is the end of what sealing gives. -/
structure Aead where
  sealData : Bytes → Bytes → Bytes → Bytes → Except Failure Bytes
  openData : Bytes → Bytes → Bytes → Bytes → Except Failure Bytes
  opens_sealed : ∀ {key nonce aad plain sealed}, sealData key nonce aad plain = .ok sealed →
    openData key nonce aad sealed = .ok plain

theorem invalidArg_ne_ok : Status.invalidArg ≠ .ok := by decide

theorem nomem_ne_ok : Status.nomem ≠ .ok := by decide

theorem state_ne_ok : Status.state ≠ .ok := by decide

/-- `dcc_voice_xchacha20poly1305` with `encrypt` set. -/
def Aead.encrypt (a : Aead) (outCap : Nat) (key nonce aad input : Bytes) : Except Failure Bytes :=
  if input.length > evpInputMax ∨ aad.length > evpInputMax then .error ⟨.invalidArg, invalidArg_ne_ok⟩
  else if input.length > wordMax - aeadTagSize ∨ outCap < input.length + aeadTagSize then
    .error ⟨.nomem, nomem_ne_ok⟩
  else a.sealData key nonce aad input

/-- `dcc_voice_xchacha20poly1305` with `encrypt` clear. -/
def Aead.decrypt (a : Aead) (outCap : Nat) (key nonce aad input : Bytes) : Except Failure Bytes :=
  if input.length > evpInputMax ∨ aad.length > evpInputMax then .error ⟨.invalidArg, invalidArg_ne_ok⟩
  else if input.length < aeadTagSize ∨ outCap < input.length - aeadTagSize then
    .error ⟨.invalidArg, invalidArg_ne_ok⟩
  else if input.length - aeadTagSize > evpInputMax then .error ⟨.state, state_ne_ok⟩
  else a.openData key nonce aad input

/-- The surroundings of the send path with this cipher; the output goes to the room
between the header and the nonce. -/
def Outcome.sealedBy (o : Outcome) (a : Aead) : Outcome :=
  { o with xchacha20poly1305 := fun key nonce aad input =>
      a.encrypt (input.length + aeadTagSize) key nonce aad input }

/-- What the receive path reads of a connection, and what it calls. -/
structure Listener where
  encrypted : Bool
  secretKey : Option Bytes
  ssrcMap : SsrcMap
  daveEnabled : Bool
  daveDecrypt : UInt64 → Bytes → Except Failure Bytes
  decoder : Option (UInt32 → Bytes → Except Failure Bytes)
  receivePcm : UInt32 → Bytes → Status

namespace Listener

/-- The media payload of a packet: the payload itself, or with encryption what its
ciphertext opens to behind the words of the extension. -/
def openMedia (l : Listener) (a : Aead) (packet : Bytes) (view : MediaView) :
    Except Failure Bytes :=
  let payload := (packet.drop view.payloadOffset).take view.payloadSize
  if !l.encrypted then .ok payload
  else
    match l.secretKey with
    | none => .error ⟨.state, state_ne_ok⟩
    | some key =>
      if view.payloadSize ≤ aeadTagSize + rtpsizeNonceSize then .error ⟨.state, state_ne_ok⟩
      else
        let nonce := packet.drop (packet.length - rtpsizeNonceSize) ++
          List.replicate (xchacha20NonceSize - rtpsizeNonceSize) 0
        let ciphertext := payload.take (view.payloadSize - rtpsizeNonceSize)
        match a.decrypt pcmBufferCap key nonce (packet.take view.aadSize) ciphertext with
        | .error failure => .error failure
        | .ok decrypted =>
          if view.encryptedExtensionSize > decrypted.length then
            .error ⟨.invalidArg, invalidArg_ne_ok⟩
          else .ok (decrypted.drop view.encryptedExtensionSize)

/-- The decoder and the mixer on an Opus payload. -/
def playOpus (l : Listener) (decoder : UInt32 → Bytes → Except Failure Bytes) (ssrc : UInt32)
    (opusPayload : Bytes) : Status :=
  match decoder ssrc opusPayload with
  | .error failure => failure.val
  | .ok pcm =>
    if pcm.length > pcmBufferCap then .invalidArg
    else if pcm.length = 0 then .ok
    else l.receivePcm ssrc pcm

/-- End-to-end decryption, the decoder and the mixer on a media payload. -/
def playMedia (l : Listener) (decoder : UInt32 → Bytes → Except Failure Bytes) (userId : UInt64)
    (ssrc : UInt32) (media : Bytes) : Status :=
  match if l.daveEnabled then l.daveDecrypt userId media else .ok media with
  | .error failure => failure.val
  | .ok opusPayload => l.playOpus decoder ssrc opusPayload

/-- `dcc_voice_client_process_rtp_packet`; none when the parse would read outside
the packet. -/
def processRtpPacket (l : Listener) (a : Aead) (packet : Bytes) : Option Status := do
  let (status, view) ← rtpMediaViewParse l.encrypted packet
  if status ≠ .ok then return status
  if !view.shouldDecode ∨ view.payloadSize = 0 then return .ok
  let userId := userForSsrc l.ssrcMap view.ssrc
  if userId = 0 then return .state
  match l.decoder with
  | none => return .state
  | some decoder =>
    match l.openMedia a packet view with
    | .error failure => return failure.val
    | .ok media =>
      if media.length = 0 then return .ok
      return l.playMedia decoder userId view.ssrc media

end Listener

/-- The view of a packet that is a header of the send path and `size` bytes. -/
def MediaView.plain (ssrc : UInt32) (size : Nat) : MediaView where
  payloadOffset := rtpHeaderSize
  payloadSize := size
  aadSize := rtpHeaderSize
  encryptedExtensionSize := 0
  ssrc := ssrc
  shouldDecode := true

section Header

variable (sequence : UInt16) (timestamp ssrc value : UInt32) (body : Bytes)

@[simp] theorem length_be32 : (be32 value).length = 4 := rfl

@[simp] theorem length_rtpHeader : (rtpHeader sequence timestamp ssrc).length = rtpHeaderSize := rfl

theorem drop_nonce : (body ++ be32 value).drop ((body ++ be32 value).length - rtpsizeNonceSize) =
    be32 value := by
  have hlength : (body ++ be32 value).length - rtpsizeNonceSize = body.length := by
    rw [List.length_append, length_be32]
    exact Nat.add_sub_cancel ..
  rw [hlength, List.drop_left]

theorem be16_value :
    (((sequence >>> 8).toUInt8.toUInt16 <<< 8) ||| sequence.toUInt8.toUInt16) = sequence := by
  have h8 : UInt16.toBitVec 8 % 16 = 8#16 := rfl
  apply UInt16.eq_of_toBitVec_eq
  apply BitVec.eq_of_getLsbD_eq
  intro i hi
  simp only [UInt16.toBitVec_or, UInt16.toBitVec_shiftLeft, UInt8.toBitVec_toUInt16,
    UInt16.toBitVec_toUInt8, UInt16.toBitVec_shiftRight, BitVec.getLsbD_or,
    BitVec.getLsbD_setWidth, h8, BitVec.shiftLeft_eq', BitVec.ushiftRight_eq',
    BitVec.getLsbD_shiftLeft, BitVec.getLsbD_ushiftRight, BitVec.toNat_ofNat]
  grind

theorem be32_value :
    (((value >>> 24).toUInt8.toUInt32 <<< 24) ||| ((value >>> 16).toUInt8.toUInt32 <<< 16) |||
      ((value >>> 8).toUInt8.toUInt32 <<< 8) ||| value.toUInt8.toUInt32) = value := by
  have h24 : UInt32.toBitVec 24 % 32 = 24#32 := rfl
  have h16 : UInt32.toBitVec 16 % 32 = 16#32 := rfl
  have h8 : UInt32.toBitVec 8 % 32 = 8#32 := rfl
  apply UInt32.eq_of_toBitVec_eq
  apply BitVec.eq_of_getLsbD_eq
  intro i hi
  simp only [UInt32.toBitVec_or, UInt32.toBitVec_shiftLeft, UInt8.toBitVec_toUInt32,
    UInt32.toBitVec_toUInt8, UInt32.toBitVec_shiftRight, BitVec.getLsbD_or,
    BitVec.getLsbD_setWidth, h24, h16, h8, BitVec.shiftLeft_eq', BitVec.ushiftRight_eq',
    BitVec.getLsbD_shiftLeft, BitVec.getLsbD_ushiftRight, BitVec.toNat_ofNat]
  grind

theorem sequenceOf_rtpHeader : sequenceOf (rtpHeader sequence timestamp ssrc ++ body) = sequence :=
  be16_value sequence

theorem readBe32_rtpHeader :
    readBe32 (rtpHeader sequence timestamp ssrc ++ body) 8 = some ssrc :=
  congrArg some (be32_value ssrc)

theorem rtpMediaViewParse_plain (rtpsize : Bool) :
    rtpMediaViewParse rtpsize (rtpHeader sequence timestamp ssrc ++ body) =
      some (.ok, .plain ssrc body.length) := by
  have hlength : (rtpHeader sequence timestamp ssrc ++ body).length = rtpHeaderSize + body.length := by
    rw [List.length_append, length_rtpHeader]
  have hfirst : (rtpHeader sequence timestamp ssrc ++ body)[0]? = some 0x80 := rfl
  have hsecond : (rtpHeader sequence timestamp ssrc ++ body)[1]? = some rtpPayloadType := rfl
  have hmedia : ¬ (rtpPayloadType &&& 0x7F ≥ 72 ∧ rtpPayloadType &&& 0x7F ≤ 76) := by decide
  have hspans : rtpMediaSpans rtpsize (rtpHeader sequence timestamp ssrc ++ body) 0x80 =
      some (.ok, .plain ssrc body.length) := by
    have hcsrc : ((0x80 : UInt8) &&& 0x0F).toNat = 0 := rfl
    have hextension : ((0x80 : UInt8) &&& 0x10) = 0 := rfl
    have hpadding : ((0x80 : UInt8) &&& 0x20) = 0 := rfl
    simp only [rtpMediaSpans, hcsrc, hlength, Nat.zero_mul, Nat.add_zero]
    rw [if_neg (Nat.not_lt_zero _), if_neg (by omega)]
    simp only [rtpExtension, rtpUnpadded, if_pos hextension, if_pos hpadding, Option.bind_eq_bind,
      Option.bind_some, Option.pure_def, readBe32_rtpHeader, Nat.add_sub_cancel_left]
    rfl
  unfold rtpMediaViewParse
  rw [if_neg (by rw [hlength]; omega)]
  simp only [hfirst, hsecond, Option.bind_eq_bind, Option.bind_some, if_neg hmedia, hspans]
  rfl

end Header

section RoundTrip

variable {settings : Settings} {counters : Counters} {payload datagram sealedPayload key : Bytes}
variable {o : Outcome} {l : Listener} {a : Aead}

/-- The nonce of the send path. -/
def sendNonce (counters : Counters) : Bytes :=
  be32 counters.nonce ++ List.replicate (xchacha20NonceSize - 4) 0

/-- The header of the send path. -/
def sendHeader (settings : Settings) (counters : Counters) : Bytes :=
  rtpHeader counters.sequence counters.timestamp settings.ssrc

theorem buildRtp_clear (hclear : settings.encrypted = false)
    (h : buildRtp settings counters payload o = .ok datagram) :
    datagram = sendHeader settings counters ++ payload := by
  simp only [buildRtp, hclear, Bool.not_false, if_true] at h
  split at h
  · simp at h
  · exact (Except.ok.inj h).symm

theorem buildRtp_sealed (hencrypted : settings.encrypted = true)
    (h : buildRtp settings counters payload o = .ok datagram) :
    ∃ key sealedPayload, settings.secretKey = some key ∧
      o.xchacha20poly1305 key (sendNonce counters) (sendHeader settings counters) payload =
        .ok sealedPayload ∧
      sealedPayload.length = payload.length + aeadTagSize ∧
      datagram = sendHeader settings counters ++ (sealedPayload ++ be32 counters.nonce) := by
  simp only [buildRtp, hencrypted, Bool.not_true, Bool.false_eq_true, if_false] at h
  cases hkey : settings.secretKey with
  | none => simp [hkey] at h
  | some key =>
    simp only [hkey] at h
    split at h
    · simp at h
    · split at h
      · simp at h
      · cases hseal : o.xchacha20poly1305 key (sendNonce counters) (sendHeader settings counters)
            payload with
        | error failure =>
          simp only [sendNonce, sendHeader] at hseal
          simp [hseal] at h
        | ok sealedPayload =>
          simp only [sendNonce, sendHeader] at hseal
          simp only [hseal] at h
          split at h
          · simp at h
          · rename_i hlength
            refine ⟨key, sealedPayload, rfl, hseal, not_not.mp hlength, ?_⟩
            rw [← Except.ok.inj h, List.append_assoc]
            rfl

theorem Aead.decrypt_encrypt {outCap outCap' : Nat} {nonce aad plain sealedPlain : Bytes}
    (h : a.encrypt outCap key nonce aad plain = .ok sealedPlain)
    (hsize : sealedPlain.length = plain.length + aeadTagSize)
    (hinput : sealedPlain.length ≤ evpInputMax) (hroom : plain.length ≤ outCap') :
    a.decrypt outCap' key nonce aad sealedPlain = .ok plain := by
  unfold Aead.encrypt at h
  split at h
  · simp at h
  · rename_i hmax
    split at h
    · simp at h
    · unfold Aead.decrypt
      rw [if_neg (by omega), if_neg (by omega), if_neg (by omega)]
      exact a.opens_sealed h

theorem Listener.openMedia_clear (hclear : l.encrypted = false) (ssrc : UInt32) (body : Bytes) :
    l.openMedia a (sendHeader settings counters ++ body) (.plain ssrc body.length) = .ok body := by
  have hpayload : ((sendHeader settings counters ++ body).drop rtpHeaderSize).take body.length =
      body := by
    have hheader : (sendHeader settings counters).length = rtpHeaderSize := length_rtpHeader ..
    rw [← hheader, List.drop_left, List.take_length]
  simp only [openMedia, MediaView.plain, hclear, Bool.not_false, if_true, hpayload]

theorem Listener.openMedia_sealed (hencrypted : l.encrypted = true) (hkey : l.secretKey = some key)
    (ssrc : UInt32) (hlong : aeadTagSize < sealedPayload.length) :
    l.openMedia a (sendHeader settings counters ++ (sealedPayload ++ be32 counters.nonce))
        (.plain ssrc (sealedPayload ++ be32 counters.nonce).length) =
      a.decrypt pcmBufferCap key (sendNonce counters) (sendHeader settings counters)
        sealedPayload := by
  have hheader : (sendHeader settings counters).length = rtpHeaderSize := length_rtpHeader ..
  have hsize : (sealedPayload ++ be32 counters.nonce).length =
      sealedPayload.length + rtpsizeNonceSize := by
    rw [List.length_append, length_be32]
    rfl
  have hnonce : (sendHeader settings counters ++ (sealedPayload ++ be32 counters.nonce)).drop
      ((sendHeader settings counters ++ (sealedPayload ++ be32 counters.nonce)).length -
        rtpsizeNonceSize) = be32 counters.nonce := by
    rw [← List.append_assoc]
    exact drop_nonce ..
  have hciphertext : (((sendHeader settings counters ++
      (sealedPayload ++ be32 counters.nonce)).drop rtpHeaderSize).take
        (sealedPayload.length + rtpsizeNonceSize)).take sealedPayload.length = sealedPayload := by
    rw [← hheader, List.drop_left, ← hsize, List.take_length, List.take_left]
  have haad : (sendHeader settings counters ++ (sealedPayload ++ be32 counters.nonce)).take
      rtpHeaderSize = sendHeader settings counters := by
    rw [← hheader, List.take_left]
  simp only [openMedia, MediaView.plain, hencrypted, hkey, Bool.not_true, Bool.false_eq_true,
    if_false, hsize, hnonce, Nat.add_sub_cancel, hciphertext, haad]
  rw [if_neg (by omega)]
  have hpadded : be32 counters.nonce ++ List.replicate (xchacha20NonceSize - rtpsizeNonceSize) 0 =
      sendNonce counters := rfl
  rw [hpadded]
  cases a.decrypt pcmBufferCap key (sendNonce counters) (sendHeader settings counters)
      sealedPayload with
  | error failure => rfl
  | ok decrypted => simp

section

variable {view : MediaView} {decoder : UInt32 → Bytes → Except Failure Bytes}
  (hparse : rtpMediaViewParse l.encrypted datagram = some (.ok, view))
  (hdecode : view.shouldDecode = true) (hsize : view.payloadSize ≠ 0)
  (huser : userForSsrc l.ssrcMap view.ssrc ≠ 0) (hdecoder : l.decoder = some decoder)
include hparse hdecode hsize huser hdecoder

theorem Listener.processRtpPacket_opened {media : Bytes}
    (hopen : l.openMedia a datagram view = .ok media) (hmedia : 0 < media.length) :
    l.processRtpPacket a datagram =
      some (l.playMedia decoder (userForSsrc l.ssrcMap view.ssrc) view.ssrc media) := by
  have hnone : media ≠ [] := List.ne_nil_of_length_pos hmedia
  simp [processRtpPacket, hparse, hdecode, hsize, huser, hdecoder, hopen, hnone]

theorem Listener.processRtpPacket_refused {failure : Failure}
    (hopen : l.openMedia a datagram view = .error failure) :
    l.processRtpPacket a datagram = some failure.val := by
  simp [processRtpPacket, hparse, hdecode, hsize, huser, hdecoder, hopen]

end

/-- What the receive path makes of a packet is what the send path built it from: the
same sequence number, SSRC, authenticated header, nonce and media payload. -/
structure Listener.Recovers (l : Listener) (a : Aead) (settings : Settings) (counters : Counters)
    (payload datagram : Bytes) : Prop where
  sequence : sequenceOf datagram = counters.sequence
  parsed : rtpMediaViewParse l.encrypted datagram =
    some (.ok, .plain settings.ssrc (datagram.length - rtpHeaderSize))
  aad : datagram.take rtpHeaderSize = sendHeader settings counters
  nonce : settings.encrypted = true →
    datagram.drop (datagram.length - rtpsizeNonceSize) = (sendNonce counters).take rtpsizeNonceSize
  opened : l.openMedia a datagram (.plain settings.ssrc (datagram.length - rtpHeaderSize)) =
    .ok payload
  played : ∀ decoder, userForSsrc l.ssrcMap settings.ssrc ≠ 0 → l.decoder = some decoder →
    l.processRtpPacket a datagram =
      some (l.playMedia decoder (userForSsrc l.ssrcMap settings.ssrc) settings.ssrc payload)

theorem Listener.Recovers.of_opened {body : Bytes}
    (hdatagram : datagram = sendHeader settings counters ++ body) (hbody : 0 < body.length)
    (hpayload : 0 < payload.length)
    (hnonce : settings.encrypted = true → ∃ front, body = front ++ be32 counters.nonce)
    (hopen : l.openMedia a datagram (.plain settings.ssrc body.length) = .ok payload) :
    l.Recovers a settings counters payload datagram := by
  have hheader : (sendHeader settings counters).length = rtpHeaderSize := length_rtpHeader ..
  have hsize : datagram.length - rtpHeaderSize = body.length := by
    rw [hdatagram, List.length_append, hheader, Nat.add_sub_cancel_left]
  have hparse : rtpMediaViewParse l.encrypted datagram =
      some (.ok, .plain settings.ssrc body.length) := by
    rw [hdatagram]
    exact rtpMediaViewParse_plain ..
  refine
    { sequence := by
        rw [hdatagram]
        exact sequenceOf_rtpHeader ..
      parsed := by rw [hsize, hparse]
      aad := by rw [hdatagram, ← hheader, List.take_left]
      nonce := ?_
      opened := by rw [hsize, hopen]
      played := fun decoder huser hdecoder =>
        processRtpPacket_opened hparse rfl (Nat.ne_of_gt hbody) huser hdecoder hopen hpayload }
  intro hencrypted
  obtain ⟨front, rfl⟩ := hnonce hencrypted
  rw [hdatagram, ← List.append_assoc]
  exact drop_nonce ..

/-- A packet with a payload that does not fit the receiver's buffer is refused. -/
theorem Listener.processRtpPacket_oversized {decoder : UInt32 → Bytes → Except Failure Bytes}
    (hencrypted : settings.encrypted = true) (hmode : l.encrypted = settings.encrypted)
    (hkey : l.secretKey = settings.secretKey)
    (hbuild : buildRtp settings counters payload o = .ok datagram)
    (hlong : pcmBufferCap < payload.length)
    (huser : userForSsrc l.ssrcMap settings.ssrc ≠ 0) (hdecoder : l.decoder = some decoder) :
    l.processRtpPacket a datagram = some .invalidArg := by
  obtain ⟨key, sealedPayload, hsecret, -, hlength, hdatagram⟩ := buildRtp_sealed hencrypted hbuild
  have hrefused : a.decrypt pcmBufferCap key (sendNonce counters) (sendHeader settings counters)
      sealedPayload = .error ⟨.invalidArg, by decide⟩ := by
    unfold Aead.decrypt
    split
    · rfl
    · rw [if_pos (by omega)]
  have hopen : l.openMedia a (sendHeader settings counters ++ (sealedPayload ++ be32 counters.nonce))
      (.plain settings.ssrc (sealedPayload ++ be32 counters.nonce).length) =
        a.decrypt pcmBufferCap key (sendNonce counters) (sendHeader settings counters)
          sealedPayload :=
    openMedia_sealed (hmode.trans hencrypted) (hkey.trans hsecret) settings.ssrc (by omega)
  rw [hrefused, ← hdatagram] at hopen
  have hparse : rtpMediaViewParse l.encrypted datagram =
      some (.ok, .plain settings.ssrc (sealedPayload ++ be32 counters.nonce).length) := by
    rw [hdatagram]
    exact rtpMediaViewParse_plain ..
  exact processRtpPacket_refused hparse rfl (by simp [MediaView.plain]) huser hdecoder hopen

end RoundTrip

/-- **A built packet comes out as what it was built from.**  Whatever the payload,
the numbers and the mode: a receiver in the same mode with the same key recovers
them from the packet, as long as there is a payload and, with encryption, it fits
the buffer it is decrypted to. -/
theorem rtp_roundtrip (a : Aead) (o : Outcome) (l : Listener) (settings : Settings)
    (counters : Counters) (payload datagram : Bytes)
    (hmode : l.encrypted = settings.encrypted) (hkey : l.secretKey = settings.secretKey)
    (hpayload : 0 < payload.length)
    (hroom : settings.encrypted = true → payload.length ≤ pcmBufferCap)
    (hbuild : buildRtp settings counters payload (o.sealedBy a) = .ok datagram) :
    l.Recovers a settings counters payload datagram := by
  cases hencrypted : settings.encrypted with
  | false =>
    have hdatagram := buildRtp_clear hencrypted hbuild
    refine .of_opened hdatagram hpayload hpayload (by simp [hencrypted]) ?_
    rw [hdatagram]
    exact Listener.openMedia_clear (hmode.trans hencrypted) _ _
  | true =>
    obtain ⟨key, sealedPayload, hsecret, hseal, hlength, hdatagram⟩ :=
      buildRtp_sealed hencrypted hbuild
    have hfits := hroom hencrypted
    have hundone : a.decrypt pcmBufferCap key (sendNonce counters) (sendHeader settings counters)
        sealedPayload = .ok payload := by
      refine Aead.decrypt_encrypt hseal hlength ?_ hfits
      simp only [aeadTagSize, pcmBufferCap, evpInputMax] at hlength hfits ⊢
      omega
    refine .of_opened hdatagram (by simp [hlength]) hpayload (fun _ => ⟨_, rfl⟩) ?_
    rw [hdatagram, Listener.openMedia_sealed (hmode.trans hencrypted) (hkey.trans hsecret) _
      (by omega), hundone]

/-- A cipher that appends a tag and takes it off again. -/
def taggingAead : Aead where
  sealData _ _ _ plain := .ok (plain ++ List.replicate aeadTagSize 0)
  openData _ _ _ sealedPlain := .ok (sealedPlain.take (sealedPlain.length - aeadTagSize))
  opens_sealed := by
    intro key nonce aad plain sealedPlain h
    rw [← Except.ok.inj h, List.length_append, List.length_replicate, Nat.add_sub_cancel,
      List.take_left]

/-- A sender with encryption. -/
def sealingSettings : Settings where
  udpOpen := true
  ssrc := 1
  daveEnabled := false
  encrypted := true
  secretKey := some (List.replicate 32 7)

/-- Surroundings in which nothing fails. -/
def sealingOutcome : Outcome where
  dave := .ok
  allocated := true
  xchacha20poly1305 _ _ _ plain := .ok plain
  sendto packet := some packet.length
  notify := .ok

/-- A receiver that knows the sender, with the sender's key. -/
def sealingListener : Listener where
  encrypted := true
  secretKey := some (List.replicate 32 7)
  ssrcMap := ⟨[⟨1, 5⟩], by decide, by decide⟩
  daveEnabled := false
  daveDecrypt _ := .ok
  decoder := some fun _ opusPayload => .ok opusPayload
  receivePcm _ _ := .ok

/-- Three bytes of payload. -/
theorem rtp_roundtrip_three :
    sealingListener.Recovers taggingAead sealingSettings ⟨258, 960, 7⟩ [1, 2, 3]
      (rtpHeader 258 960 1 ++ ([1, 2, 3] ++ List.replicate 16 0) ++ [0, 0, 0, 7]) :=
  rtp_roundtrip taggingAead sealingOutcome sealingListener sealingSettings ⟨258, 960, 7⟩ [1, 2, 3]
    _ rfl rfl (by decide) (by decide) rfl

theorem buildRtp_tagging (payload : Bytes) (counters : Counters)
    (hlength : payload.length ≤ evpInputMax) :
    ∃ datagram, buildRtp sealingSettings counters payload (sealingOutcome.sealedBy taggingAead) =
      .ok datagram := by
  have hheader : (sendHeader sealingSettings counters).length = rtpHeaderSize := length_rtpHeader ..
  have hseal : (sealingOutcome.sealedBy taggingAead).xchacha20poly1305 (List.replicate 32 7)
      (sendNonce counters) (sendHeader sealingSettings counters) payload =
        .ok (payload ++ List.replicate aeadTagSize 0) := by
    have hfits : ¬ (payload.length > wordMax - aeadTagSize ∨
        payload.length + aeadTagSize < payload.length + aeadTagSize) := by
      simp only [evpInputMax, wordMax, wordSize, aeadTagSize] at hlength ⊢
      omega
    have hshort : ¬ (payload.length > evpInputMax ∨ rtpHeaderSize > evpInputMax) := by
      simp only [evpInputMax, rtpHeaderSize] at hlength ⊢
      omega
    simp only [Outcome.sealedBy, Aead.encrypt, hheader, if_neg hshort, if_neg hfits]
    rfl
  have hmodest : ¬ payload.length > wordMax - sendHeaderSize - aeadTagSize - rtpsizeNonceSize := by
    simp only [evpInputMax, wordMax, wordSize, sendHeaderSize, aeadTagSize, rtpsizeNonceSize]
      at hlength ⊢
    omega
  have hencrypted : sealingSettings.encrypted = true := rfl
  have hkey : sealingSettings.secretKey = some (List.replicate 32 7) := rfl
  have hallocated : (sealingOutcome.sealedBy taggingAead).allocated = true := rfl
  simp only [sendNonce, sendHeader] at hseal
  simp only [buildRtp, hencrypted, hkey, hallocated, Bool.not_true, Bool.false_eq_true, if_false,
    if_neg hmodest, hseal, List.length_append, List.length_replicate, ne_eq, not_true_eq_false]
  exact ⟨_, rfl⟩

/-- A payload of one byte more than the receiver's buffer is sealed into a packet,
and the receiver refuses the packet. -/
theorem rtp_roundtrip_overflow :
    ∃ datagram, buildRtp sealingSettings ⟨258, 960, 7⟩ (List.replicate (pcmBufferCap + 1) 0)
        (sealingOutcome.sealedBy taggingAead) = .ok datagram ∧
      sealingListener.processRtpPacket taggingAead datagram = some .invalidArg := by
  have hlength : (List.replicate (pcmBufferCap + 1) (0 : UInt8)).length = pcmBufferCap + 1 :=
    List.length_replicate
  obtain ⟨datagram, hbuild⟩ := buildRtp_tagging (List.replicate (pcmBufferCap + 1) 0)
    ⟨258, 960, 7⟩ (by rw [hlength]; decide)
  exact ⟨datagram, hbuild, Listener.processRtpPacket_oversized rfl rfl rfl hbuild
    (by rw [hlength]; exact Nat.lt_succ_self _) (by decide) rfl⟩

end Dcc.Voice
