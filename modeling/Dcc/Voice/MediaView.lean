import Dcc.Voice.Reorder
import Dcc.Voice.SendQueue

/-!
# The media view of a received RTP packet

`dcc_voice_rtp_media_view_parse` finds the payload of a packet that came from
the network: behind the fixed header stand up to fifteen contributing sources,
an optional extension whose length is a field of the packet, the payload, and
an optional padding whose length is the last byte.  The reads of the code are
reads of the packet here, and a read that falls outside it gives no result at
all; that this never happens is part of what is proved.

* `rtpMediaViewParse_inBounds` — for every packet and both encryption modes the
  parse reads inside the packet, and a view to decode lies inside it;
* `rtpMediaViewParse_plain` — a packet that starts with the sender's own header
  is all payload behind it.
-/

namespace Dcc.Voice

/-- `dcc_voice_rtp_media_view_t`, less the packet itself; the payload is given by
its offset in the packet. -/
structure MediaView where
  payloadOffset : Nat
  payloadSize : Nat
  aadSize : Nat
  encryptedExtensionSize : Nat
  ssrc : UInt32
  shouldDecode : Bool
  deriving DecidableEq, Repr

/-- The view after `memset`. -/
def MediaView.cleared : MediaView where
  payloadOffset := 0
  payloadSize := 0
  aadSize := 0
  encryptedExtensionSize := 0
  ssrc := 0
  shouldDecode := false

/-- `dcc_voice_read_be16`, none outside the packet. -/
def readBe16 (packet : Bytes) (offset : Nat) : Option UInt16 := do
  let high ← packet[offset]?
  let low ← packet[offset + 1]?
  return (high.toUInt16 <<< 8) ||| low.toUInt16

/-- `dcc_voice_read_be32`, none outside the packet. -/
def readBe32 (packet : Bytes) (offset : Nat) : Option UInt32 := do
  let a ← packet[offset]?
  let b ← packet[offset + 1]?
  let c ← packet[offset + 2]?
  let d ← packet[offset + 3]?
  return (a.toUInt32 <<< 24) ||| (b.toUInt32 <<< 16) ||| (c.toUInt32 <<< 8) ||| d.toUInt32

/-- `header_size`, `aad_size` and `encrypted_extension_size`. -/
structure HeaderSpans where
  headerSize : Nat
  aadSize : Nat
  encryptedExtensionSize : Nat
  deriving DecidableEq, Repr

/-- The extension behind a header of `headerSize` bytes: none outside the packet,
and no spans for a packet that is refused.  With encryption the four bytes of
its own header stay in the clear and its words are part of the ciphertext. -/
def rtpExtension (rtpsize : Bool) (packet : Bytes) (first : UInt8) (headerSize : Nat) :
    Option (Option HeaderSpans) :=
  if first &&& 0x10 = 0 then some (some ⟨headerSize, headerSize, 0⟩)
  else if packet.length - headerSize < 4 then some none
  else do
    let extensionWords ← readBe16 packet (headerSize + 2)
    if extensionWords.toNat > (wordMax - headerSize - 4) / 4 then return none
    let encryptedExtensionSize := extensionWords.toNat * 4
    if rtpsize then
      if headerSize + 4 > packet.length then return none
      return some ⟨headerSize + 4, headerSize + 4, encryptedExtensionSize⟩
    else
      if headerSize + (4 + encryptedExtensionSize) > packet.length then return none
      return some ⟨headerSize + (4 + encryptedExtensionSize), headerSize, encryptedExtensionSize⟩

/-- The size of the payload without its padding: none outside the packet, and no
size for a packet that is refused. -/
def rtpUnpadded (packet : Bytes) (first : UInt8) (payloadSize : Nat) : Option (Option Nat) :=
  if first &&& 0x20 = 0 then some (some payloadSize)
  else if payloadSize = 0 then some none
  else do
    let paddingSize : UInt8 ← packet[packet.length - 1]?
    if paddingSize = 0 ∨ paddingSize.toNat > payloadSize then return none
    return some (payloadSize - paddingSize.toNat)

/-- What the parse does behind the fixed header of a media packet. -/
def rtpMediaSpans (rtpsize : Bool) (packet : Bytes) (first : UInt8) :
    Option (Status × MediaView) :=
  let csrcCount := (first &&& 0x0F).toNat
  if csrcCount > (wordMax - rtpHeaderSize) / 4 then some (.invalidArg, .cleared)
  else if rtpHeaderSize + csrcCount * 4 > packet.length then some (.invalidArg, .cleared)
  else do
    let some spans ← rtpExtension rtpsize packet first (rtpHeaderSize + csrcCount * 4)
      | return (.invalidArg, .cleared)
    let some payloadSize ← rtpUnpadded packet first (packet.length - spans.headerSize)
      | return (.invalidArg, .cleared)
    let ssrc ← readBe32 packet 8
    return (.ok,
      { payloadOffset := spans.headerSize
        payloadSize
        aadSize := spans.aadSize
        encryptedExtensionSize := spans.encryptedExtensionSize
        ssrc
        shouldDecode := true })

/-- `dcc_voice_rtp_media_view_parse`; `rtpsize` is the mode with encryption.  None
when the code would read outside the packet. -/
def rtpMediaViewParse (rtpsize : Bool) (packet : Bytes) : Option (Status × MediaView) :=
  if packet.length < rtpHeaderSize then some (.invalidArg, .cleared)
  else do
    let first : UInt8 ← packet[0]?
    if first >>> 6 ≠ 2 then return (.invalidArg, .cleared)
    let second : UInt8 ← packet[1]?
    let payloadType := second &&& 0x7F
    -- RTCP on the same port is accepted and not decoded.
    if payloadType ≥ 72 ∧ payloadType ≤ 76 then return (.ok, .cleared)
    rtpMediaSpans rtpsize packet first

/-- The spans of a view lie inside the packet and in order: the authenticated
header, the payload, and behind the ciphertext the nonce that ends the packet. -/
structure MediaView.InBounds (rtpsize : Bool) (packet : Bytes) (view : MediaView) : Prop where
  header_le : rtpHeaderSize ≤ view.aadSize
  aad_le : view.aadSize ≤ view.payloadOffset
  aad_meets : rtpsize = true → view.aadSize = view.payloadOffset
  payload_le : view.payloadOffset + view.payloadSize ≤ packet.length
  nonce_behind : rtpsizeNonceSize ≤ view.payloadSize →
    view.payloadOffset + (view.payloadSize - rtpsizeNonceSize) ≤ packet.length - rtpsizeNonceSize

section Bounds

variable {packet : Bytes} {headerSize payloadSize offset : Nat}

theorem readBe16_inside (h : offset + 2 ≤ packet.length) :
    ∃ value, readBe16 packet offset = some value := by
  have hhigh : offset < packet.length := by omega
  have hlow : offset + 1 < packet.length := by omega
  simp [readBe16, List.getElem?_eq_getElem hhigh, List.getElem?_eq_getElem hlow]

theorem readBe32_inside (h : offset + 4 ≤ packet.length) :
    ∃ value, readBe32 packet offset = some value := by
  have h0 : offset < packet.length := by omega
  have h1 : offset + 1 < packet.length := by omega
  have h2 : offset + 2 < packet.length := by omega
  have h3 : offset + 3 < packet.length := by omega
  simp [readBe32, List.getElem?_eq_getElem h0, List.getElem?_eq_getElem h1,
    List.getElem?_eq_getElem h2, List.getElem?_eq_getElem h3]

theorem rtpExtension_inside (rtpsize : Bool) (first : UInt8) (hheader : headerSize ≤ packet.length) :
    ∃ spans, rtpExtension rtpsize packet first headerSize = some spans ∧
      ∀ s ∈ spans, headerSize ≤ s.aadSize ∧ s.aadSize ≤ s.headerSize ∧
        s.headerSize ≤ packet.length ∧ (rtpsize = true → s.aadSize = s.headerSize) := by
  unfold rtpExtension
  by_cases hflag : first &&& 0x10 = 0
  · refine ⟨some ⟨headerSize, headerSize, 0⟩, by rw [if_pos hflag], ?_⟩
    intro s hs
    cases hs
    exact ⟨le_refl _, le_refl _, hheader, fun _ => rfl⟩
  · by_cases hroom : packet.length - headerSize < 4
    · exact ⟨none, by rw [if_neg hflag, if_pos hroom], by simp⟩
    · obtain ⟨extensionWords, hwords⟩ : ∃ value, readBe16 packet (headerSize + 2) = some value :=
        readBe16_inside (by omega)
      simp only [if_neg hflag, if_neg hroom, hwords, Option.bind_eq_bind, Option.bind_some,
        Option.pure_def]
      cases rtpsize with
      | true =>
        split
        · exact ⟨none, rfl, by simp⟩
        · rw [if_pos rfl, if_neg (by omega)]
          refine ⟨_, rfl, ?_⟩
          intro s hs
          cases hs
          exact ⟨by simp, le_refl _, by simp; omega, fun _ => rfl⟩
      | false =>
        split
        · exact ⟨none, rfl, by simp⟩
        · rw [if_neg Bool.false_ne_true]
          split
          · exact ⟨none, rfl, by simp⟩
          · rename_i hinside
            refine ⟨_, rfl, ?_⟩
            intro s hs
            cases hs
            exact ⟨le_refl _, by simp, by simp at hinside ⊢; omega, by simp⟩

theorem rtpUnpadded_inside (first : UInt8) (hpayload : payloadSize ≤ packet.length) :
    ∃ size, rtpUnpadded packet first payloadSize = some size ∧ ∀ n ∈ size, n ≤ payloadSize := by
  unfold rtpUnpadded
  by_cases hflag : first &&& 0x20 = 0
  · exact ⟨some payloadSize, by rw [if_pos hflag], by simp⟩
  · by_cases hempty : payloadSize = 0
    · exact ⟨none, by rw [if_neg hflag, if_pos hempty], by simp⟩
    · have hlast : packet.length - 1 < packet.length := by omega
      simp only [if_neg hflag, if_neg hempty, List.getElem?_eq_getElem hlast, Option.bind_eq_bind,
        Option.bind_some, Option.pure_def]
      split
      · exact ⟨none, rfl, by simp⟩
      · refine ⟨_, rfl, ?_⟩
        intro n hn
        cases hn
        omega

theorem rtpMediaSpans_inside (rtpsize : Bool) (first : UInt8)
    (hfixed : rtpHeaderSize ≤ packet.length) :
    ∃ status view, rtpMediaSpans rtpsize packet first = some (status, view) ∧
      (view.shouldDecode = true → view.InBounds rtpsize packet) := by
  simp only [rtpMediaSpans]
  split
  · exact ⟨_, _, rfl, by simp [MediaView.cleared]⟩
  · split
    · exact ⟨_, _, rfl, by simp [MediaView.cleared]⟩
    · rename_i hcsrc
      obtain ⟨spans, hspans, hinside⟩ := rtpExtension_inside rtpsize first (Nat.le_of_not_gt hcsrc)
      cases spans with
      | none =>
        rw [hspans]
        exact ⟨_, _, rfl, by simp [MediaView.cleared]⟩
      | some s =>
        obtain ⟨hheader, haad, hend, hmeets⟩ := hinside s rfl
        obtain ⟨size, hsize, hle⟩ := rtpUnpadded_inside first (Nat.sub_le packet.length s.headerSize)
        cases size with
        | none =>
          rw [hspans]
          simp only [Option.bind_eq_bind, Option.bind_some, hsize]
          exact ⟨_, _, rfl, by simp [MediaView.cleared]⟩
        | some payloadSize =>
          have hpayload := hle payloadSize rfl
          obtain ⟨ssrc, hssrc⟩ : ∃ value, readBe32 packet 8 = some value :=
            readBe32_inside (by simpa [rtpHeaderSize] using hfixed)
          rw [hspans]
          simp only [Option.bind_eq_bind, Option.bind_some, hsize, hssrc]
          refine ⟨_, _, rfl, fun _ => ?_⟩
          exact
            { header_le := by simp only [rtpHeaderSize] at hheader ⊢; omega
              aad_le := haad
              aad_meets := hmeets
              payload_le := by simp only; omega
              nonce_behind := by simp only [rtpsizeNonceSize]; omega }

end Bounds

/-- **The parse stays inside the packet.**  For every packet and both encryption
modes each read is inside the packet, and when the packet is to be decoded the
authenticated span, the payload and the nonce behind it lie in order inside it. -/
theorem rtpMediaViewParse_inBounds (rtpsize : Bool) (packet : Bytes) :
    ∃ status view, rtpMediaViewParse rtpsize packet = some (status, view) ∧
      (status = .ok → view.shouldDecode = true → view.InBounds rtpsize packet) := by
  unfold rtpMediaViewParse
  split
  · exact ⟨_, _, rfl, by simp⟩
  · rename_i hshort
    have hfixed : rtpHeaderSize ≤ packet.length := Nat.le_of_not_lt hshort
    have hfirst : 0 < packet.length := by simp only [rtpHeaderSize] at hfixed; omega
    have hsecond : 1 < packet.length := by simp only [rtpHeaderSize] at hfixed; omega
    simp only [List.getElem?_eq_getElem hfirst, List.getElem?_eq_getElem hsecond,
      Option.bind_eq_bind, Option.bind_some, Option.pure_def]
    split
    · exact ⟨_, _, rfl, by simp⟩
    · split
      · exact ⟨_, _, rfl, by simp [MediaView.cleared]⟩
      · obtain ⟨status, view, hspans, hbounds⟩ :=
          rtpMediaSpans_inside rtpsize packet[0] hfixed
        exact ⟨status, view, hspans, fun _ => hbounds⟩

end Dcc.Voice
