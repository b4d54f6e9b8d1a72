import Dcc.Ws.Recv

/-!
# A sent frame read back

`dcc_ws_send` writes one masked frame for a payload of any length; `dcc_ws_recv`
reads the header of a frame, undoes the mask and, between the two, refuses what
is over its own limits.  Both work out the length form, the byte order and the
place of the mask for themselves.

* `readFrame_limits` — reading a frame is decoding its header, the limits, and the
  payload;
* `send_decodes` — the bytes of an accepted send decode to its opcode and payload
  and are consumed exactly; the whole of `dcc_ws_recv` adds the limits and nothing
  else.
-/

namespace Dcc.WebSocket

/-- What the header of a frame tells: `fin`, `opcode`, `masked`, `payload_len`. -/
structure Heading where
  fin : Bool
  opcode : Fin 16
  masked : Bool
  length : Nat
  deriving DecidableEq, Repr

/-- The frame-header rules of `dcc_ws_recv`. -/
def decodeHeader (s : Source) : Source × Except Status Heading :=
  match s.readExact 2 with
  | (s, none) => (s, .error .network)
  | (s, some header) =>
    let first := header.getD 0 0
    let second := header.getD 1 0
    if first &&& 0x70 ≠ 0 then (s, .error .network)
    else
      match readLength s (second &&& 0x7f).toNat with
      | (s, none) => (s, .error .network)
      | (s, some length) =>
        (s, .ok ⟨first &&& 0x80 ≠ 0, Fin.ofNat 16 (first &&& 0x0f).toNat, second &&& 0x80 ≠ 0,
          length⟩)

/-- The frame-header and unmasking rules of `dcc_ws_recv`, without its limits. -/
def decodeFrame (s : Source) (round : Round) : Source × Except Status Incoming :=
  match decodeHeader s with
  | (s, .error status) => (s, .error status)
  | (s, .ok h) => readPayload s round h.fin h.opcode h.masked h.length

/-- What the limits of `dcc_ws_recv` let through. -/
def Heading.WithinLimits (h : Heading) : Prop :=
  h.length ≤ maxMessageBytes ∧ (h.opcode ≥ 0x8 → h.fin = true ∧ h.length ≤ 125)

instance (h : Heading) : Decidable h.WithinLimits :=
  inferInstanceAs (Decidable (_ ∧ _))

section Decoding

variable {s : Source} {rest : Bytes}

theorem checks_eq_limits {α : Type} (h : Heading) (refused accepted : α) :
    (if h.length > maxMessageBytes then refused
      else if h.opcode ≥ 0x8 ∧ (h.fin = false ∨ h.length > 125) then refused
      else accepted) = if h.WithinLimits then accepted else refused := by
  by_cases hlong : h.length > maxMessageBytes
  · have hover : ¬ h.WithinLimits := fun hwithin => absurd hwithin.1 (Nat.not_le.mpr hlong)
    rw [if_pos hlong, if_neg hover]
  · rw [if_neg hlong]
    by_cases hcontrol : h.opcode ≥ 0x8 ∧ (h.fin = false ∨ h.length > 125)
    · have hover : ¬ h.WithinLimits := by
        intro hwithin
        obtain ⟨hfin, hshort⟩ := hwithin.2 hcontrol.1
        rcases hcontrol.2 with hopen | hover
        · exact absurd hfin (by simp [hopen])
        · omega
      rw [if_pos hcontrol, if_neg hover]
    · have hwithin : h.WithinLimits := by
        refine ⟨Nat.le_of_not_gt hlong, fun hop => ⟨?_, ?_⟩⟩
        · by_contra hopen
          exact hcontrol ⟨hop, Or.inl (by simpa using hopen)⟩
        · by_contra hover
          exact hcontrol ⟨hop, Or.inr (by omega)⟩
      rw [if_neg hcontrol, if_pos hwithin]

/-- **The limits stand between the header and the payload.** -/
theorem readFrame_limits (s : Source) (round : Round) :
    readFrame s round = match decodeHeader s with
      | (s, .error status) => (s, .error status)
      | (s, .ok h) =>
        if h.WithinLimits then readPayload s round h.fin h.opcode h.masked h.length
        else (s, .error .network) := by
  unfold readFrame decodeHeader
  obtain ⟨s₁, header⟩ := s.readExact 2
  cases header with
  | none => rfl
  | some header =>
    simp only
    by_cases hreserved : header.getD 0 0 &&& 0x70 ≠ 0
    · rw [if_pos hreserved, if_pos hreserved]
    · rw [if_neg hreserved, if_neg hreserved]
      obtain ⟨s₂, length⟩ := readLength s₁ (header.getD 1 0 &&& 0x7f).toNat
      cases length with
      | none => rfl
      | some length => exact checks_eq_limits ⟨_, _, _, length⟩ _ _

theorem decodeHeader_encode {h : Header} (hlive : s.Live) (hbytes : s.bytes = h.encode ++ rest)
    (hplain : h.reserved = 0) :
    ∃ s' : Source, decodeHeader s = (s', .ok ⟨h.fin, h.opcode, h.masked, h.length⟩) ∧
      s'.bytes = rest ∧ s'.Live := by
  obtain ⟨s₁, hread, hbytes₁, hlive₁⟩ := readExact_header hlive hbytes
  obtain ⟨s', hlength, hbytes', hlive'⟩ := readLength_header h hlive₁ hbytes₁
  obtain ⟨hfin, hopcode, hbit⟩ := first_bits h.fin h.reserved h.opcode
  obtain ⟨hmasked, hbits⟩ := second_bits h.masked ⟨h.lengthBits, h.lengthBits_lt⟩
  have hclear := mt hbit.mp (not_not.mpr hplain)
  refine ⟨s', ?_, hbytes', hlive'⟩
  simp only [decodeHeader, hread, List.getD_cons_zero, List.getD_cons_succ, if_neg hclear, hfin,
    hopcode, hmasked, hbits, hlength]

/-- The form that `dcc_ws_send` writes a length in. -/
def clientForm (length : Nat) : LengthForm :=
  if length < 126 then .short else if length ≤ 65535 then .word else .quad

theorem clientForm_fits {length : Nat} (h : length < 256 ^ 8) :
    (clientForm length).Fits length := by
  unfold clientForm
  split
  · simp only [LengthForm.Fits]
    omega
  · split
    · simp only [LengthForm.Fits]
      omega
    · exact h

/-- The frame of `dcc_ws_send` as a frame of the protocol. -/
def sentFrame (opcode : Fin 16) (mask : Mask) (data : Bytes) (h : data.length < 256 ^ 8) :
    Frame where
  header :=
    { fin := true
      reserved := 0
      opcode := opcode
      masked := true
      form := clientForm data.length
      length := data.length
      fits := clientForm_fits h }
  mask := mask.val
  payload := data
  plain := rfl
  maskLength := mask.property
  payloadLength := rfl

theorem sentFrame_encode (opcode : Fin 16) (mask : Mask) (data : Bytes)
    (h : data.length < 256 ^ 8) :
    (sentFrame opcode mask data h).encode = clientFrame opcode mask.val data := by
  have hfirst : (128 : Nat) + ((0 : Fin 8) : Nat) * 16 + opcode = 0x80 + opcode := by simp
  simp only [sentFrame, Frame.encode, Header.encode, Header.lengthBits, Header.extension,
    clientFrame, clientForm, if_true, hfirst]
  by_cases hshort : data.length < 126
  · simp [hshort]
  · by_cases hword : data.length ≤ 65535
    · simp [hshort, hword]
    · simp [hshort, hword]

theorem send_ok {ws ws' : Ws} {round : SendRound} {opcode : Fin 16} {data : Bytes}
    (h : ws.send round opcode data = (ws', .ok)) :
    ∃ mask : Mask, round.mask = some mask ∧
      ws'.sent = ws.sent ++ [clientFrame opcode mask.val data] ∧ data.length < 256 ^ 8 := by
  unfold Ws.send at h
  split at h
  · rename_i hretained
    exact absurd (Prod.mk.inj h).2 hretained
  · split at h
    · simp at h
    · split at h
      · simp at h
      · rename_i hfits
        split at h
        · simp at h
        · split at h
          · simp at h
          · rename_i mask hmask
            split at h
            · simp at h
            · split at h
              · simp at h
              · refine ⟨mask, hmask, ?_, ?_⟩
                · rw [← (Prod.mk.inj h).1]
                · simp only [wordMax, wordSize] at hfits
                  omega

end Decoding

/-- **A sent frame decodes to what was sent.**  For every opcode, mask and payload of
a send that was accepted, the header and unmasking rules give back the opcode, the
FIN bit and the payload from the bytes it wrote, and leave what comes behind them;
`dcc_ws_recv` reads the same frame exactly when it is within its limits. -/
theorem send_decodes {ws ws' : Ws} {sending : SendRound} {opcode : Fin 16} {data : Bytes}
    (hsend : ws.send sending opcode data = (ws', .ok)) :
    ∃ emitted, ws'.sent = ws.sent ++ [emitted] ∧
      ∀ (s : Source) (round : Round) (rest : Bytes), s.Live → s.bytes = emitted ++ rest →
        round.payload = true →
        ∃ s' : Source, decodeFrame s round = (s', .ok ⟨true, opcode, data⟩) ∧ s'.bytes = rest ∧
          (Heading.WithinLimits ⟨true, opcode, true, data.length⟩ →
            readFrame s round = (s', .ok ⟨true, opcode, data⟩)) ∧
          (¬ Heading.WithinLimits ⟨true, opcode, true, data.length⟩ →
            ∃ s'', readFrame s round = (s'', .error .network)) := by
  obtain ⟨mask, -, hsent, hlength⟩ := send_ok hsend
  refine ⟨_, hsent, ?_⟩
  intro s round rest hlive hbytes hmemory
  rw [← sentFrame_encode opcode mask data hlength, Frame.encode, List.append_assoc,
    List.append_assoc] at hbytes
  obtain ⟨s₁, hheader, hbytes₁, hlive₁⟩ :=
    decodeHeader_encode (h := (sentFrame opcode mask data hlength).header) hlive hbytes rfl
  have hpayload := readPayload_frame (f := sentFrame opcode mask data hlength) round hlive₁
    (by rw [hbytes₁, List.append_assoc])
  rcases hpayload with ⟨hfull, -⟩ | ⟨s', hread, hrest, -⟩
  · exact absurd hmemory (by simp [hfull])
  · have hdecoded : decodeFrame s round = (s', .ok ⟨true, opcode, data⟩) := by
      rw [decodeFrame, hheader]
      exact hread
    refine ⟨s', hdecoded, hrest, ?_, ?_⟩
    · intro hwithin
      rw [readFrame_limits, hheader]
      exact (if_pos hwithin).trans hread
    · intro hover
      rw [readFrame_limits, hheader]
      exact ⟨s₁, if_neg hover⟩

/-- A connection on which nothing was sent. -/
def freshWs : Ws where
  source := ⟨[], []⟩
  isOpen := true
  sent := []
  closeCode := 0
  closeReason := []

/-- A round in which nothing fails, with the mask 1, 2, 3, 4. -/
def maskedRound : SendRound where
  retained := .ok
  frame := true
  mask := some ⟨[1, 2, 3, 4], rfl⟩
  locked := true
  written := true

/-- A text of two bytes, read in two parts, with one byte behind it. -/
theorem send_decodes_two :
    ∃ s' : Source,
      decodeFrame ⟨[0x81, 0x82], [[1, 2, 3, 4, 105, 107, 7]]⟩ ⟨true, true, maskedRound⟩ =
        (s', .ok ⟨true, opText, [104, 105]⟩) ∧ s'.bytes = [7] := by
  obtain ⟨emitted, hsent, hdecodes⟩ := send_decodes
    (show freshWs.send maskedRound opText [104, 105] = (_, .ok) from rfl)
  obtain rfl : [0x81, 0x82, 1, 2, 3, 4, 105, 107] = emitted := (List.cons.inj hsent).1
  obtain ⟨s', hdecoded, hrest, -, -⟩ := hdecodes ⟨[0x81, 0x82], [[1, 2, 3, 4, 105, 107, 7]]⟩
    ⟨true, true, maskedRound⟩ [7] (by simp [Source.Live]) rfl rfl
  exact ⟨s', hdecoded, hrest⟩

end Dcc.WebSocket
