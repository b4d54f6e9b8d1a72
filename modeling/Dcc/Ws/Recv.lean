import Dcc.Ws.Wire

/-!
# Receiving a WebSocket message

`dcc_ws_recv` reads frames until a message is complete: it answers pings, skips
pongs, joins fragments, and gives up on the first frame that breaks the protocol.

What the allocator, the random generator and the socket do in one round of the loop
is an input, `Round`.

* `readFrame_header` — what the checks on a header decide, once its bytes are there;
* `readFrame_frame` — a whole frame is read and unmasked.
-/

namespace Dcc.WebSocket

/-! ## The connection -/

/-- `DCC_WS_MAX_MESSAGE_BYTES`. -/
def maxMessageBytes : Nat := 16 * 1024 * 1024

instance neZero_eight : NeZero 8 := ⟨by decide⟩

instance neZero_sixteen : NeZero 16 := ⟨by decide⟩

/-- `DCC_WS_CONTINUATION`. -/
def opContinuation : Fin 16 := 0x0

/-- `DCC_WS_TEXT`. -/
def opText : Fin 16 := 0x1

/-- `DCC_WS_BINARY`. -/
def opBinary : Fin 16 := 0x2

/-- `DCC_WS_CLOSE`. -/
def opClose : Fin 16 := 0x8

/-- `DCC_WS_PING`. -/
def opPing : Fin 16 := 0x9

/-- `DCC_WS_PONG`. -/
def opPong : Fin 16 := 0xA

/-- `sizeof(ws->close_reason)`. -/
def closeReasonSize : Nat := 124

/-- `dcc_ws_t`, with the frames that were written to the socket. -/
structure Ws where
  source : Source
  isOpen : Bool
  sent : List Bytes
  closeCode : Nat
  closeReason : Bytes

/-- The mask of a frame. -/
abbrev Mask := { mask : Bytes // mask.length = 4 }

/-- What one `dcc_ws_send` meets: the reference it takes, the frame's memory, the
random mask, the lock and the write to the socket. -/
structure SendRound where
  retained : Status
  frame : Bool
  mask : Option Mask
  locked : Bool
  written : Bool

/-- What one round of `dcc_ws_recv` meets. -/
structure Round where
  payload : Bool
  fragment : Bool
  send : SendRound

/-- The frame that `dcc_ws_send` builds. -/
def clientFrame (opcode : Fin 16) (mask data : Bytes) : Bytes :=
  UInt8.ofNat (0x80 + opcode) :: ((if data.length < 126 then [UInt8.ofNat (0x80 + data.length)]
      else if data.length ≤ 65535 then UInt8.ofNat (0x80 + 126) :: bigEndian 2 data.length
      else UInt8.ofNat (0x80 + 127) :: bigEndian 8 data.length) ++
      mask ++ xorMask mask data)

/-- The header of that frame, mask included. -/
def clientHeaderLength (len : Nat) : Nat :=
  if len > 65535 then 2 + 4 + 8 else if len ≥ 126 then 2 + 4 + 2 else 2 + 4

/-- `dcc_ws_send`. -/
def Ws.send (ws : Ws) (round : SendRound) (opcode : Fin 16) (data : Bytes) : Ws × Status :=
  if round.retained ≠ .ok then (ws, round.retained)
  else if ws.isOpen = false then (ws, .invalidArg)
  else if data.length > wordMax - clientHeaderLength data.length then (ws, .nomem)
  else if round.frame = false then (ws, .nomem)
  else
    match round.mask with
    | none => (ws, .tls)
    | some mask =>
      if round.locked = false then (ws, .canceled)
      else if round.written = false then (ws, .network)
      else ({ ws with sent := ws.sent ++ [clientFrame opcode mask data] }, .ok)

/-! ## One frame -/

/-- What a frame brings, unmasked. -/
structure Incoming where
  fin : Bool
  opcode : Fin 16
  payload : Bytes

/-- The length of the payload, from the seven bits of the header. -/
def readLength (s : Source) (bits : Nat) : Source × Option Nat :=
  if bits = 126 then
    match s.readExact 2 with
    | (s, none) => (s, none)
    | (s, some ext) => (s, some (readBE ext))
  else if bits = 127 then
    match s.readExact 8 with
    | (s, none) => (s, none)
    | (s, some ext) => (s, some (readBE ext))
  else (s, some bits)

/-- The rest of a frame after its length. -/
def readPayload (s : Source) (round : Round) (fin : Bool) (opcode : Fin 16) (masked : Bool)
    (len : Nat) : Source × Except Status Incoming :=
  match if masked then s.readExact 4 else (s, some [0, 0, 0, 0]) with
  | (s, none) => (s, .error .network)
  | (s, some mask) =>
    if len = 0 then (s, .ok ⟨fin, opcode, []⟩)
    else if round.payload = false then (s, .error .nomem)
    else
      match s.readExact len with
      | (s, none) => (s, .error .network)
      | (s, some payload) =>
        (s, .ok ⟨fin, opcode, if masked then xorMask mask payload else payload⟩)

/-- The part of `dcc_ws_recv` that reads a frame, with the checks on its header. -/
def readFrame (s : Source) (round : Round) : Source × Except Status Incoming :=
  match s.readExact 2 with
  | (s, none) => (s, .error .network)
  | (s, some header) =>
    let first := header.getD 0 0
    let second := header.getD 1 0
    let fin : Bool := first &&& 0x80 ≠ 0
    let opcode : Fin 16 := Fin.ofNat 16 (first &&& 0x0f).toNat
    let masked : Bool := second &&& 0x80 ≠ 0
    if first &&& 0x70 ≠ 0 then (s, .error .network)
    else
      match readLength s (second &&& 0x7f).toNat with
      | (s, none) => (s, .error .network)
      | (s, some len) =>
        if len > maxMessageBytes then (s, .error .network)
        else if opcode ≥ 0x8 ∧ (fin = false ∨ len > 125) then (s, .error .network)
        else readPayload s round fin opcode masked len

/-! ## The loop -/

/-- The locals of `dcc_ws_recv`: `fragment`, `fragment_opcode`, `in_fragment`. -/
structure Fragment where
  data : Bytes
  opcode : Fin 16
  inside : Bool

/-- What `dcc_ws_recv` returns. -/
inductive Received
  | message (opcode : Fin 16) (data : Bytes)
  | failed (status : Status)
  deriving DecidableEq

/-- The end of one round: `continue` or `return`. -/
inductive Next
  | again (ws : Ws) (fragment : Fragment)
  | done (ws : Ws) (result : Received)

/-- `dcc_ws_append_fragment`. -/
def appendFragment (round : Round) (buffer payload : Bytes) : Except Status Bytes :=
  if payload.length > maxMessageBytes ∨ buffer.length > maxMessageBytes - payload.length then
    .error .network
  else if round.fragment = false then .error .nomem
  else .ok (buffer ++ payload)

/-- The close code and reason that `dcc_ws_recv` keeps. -/
def Ws.closed (ws : Ws) (payload : Bytes) : Ws :=
  if payload.length ≥ 2 then
    { ws with
      closeCode := readBE (payload.take 2)
      closeReason := (payload.drop 2).take (closeReasonSize - 1) }
  else { ws with closeCode := 1005, closeReason := [] }

/-- What `dcc_ws_recv` does with a frame. -/
def Ws.handle (ws : Ws) (round : Round) (fragment : Fragment) (f : Incoming) : Next :=
  if f.opcode = opPing then
    match ws.send round.send opPong f.payload with
    | (ws, .ok) => .again ws fragment
    | (ws, status) => .done ws (.failed status)
  else if f.opcode = opPong then .again ws fragment
  else if f.opcode = opClose then
    let (ws, _) := (ws.closed f.payload).send round.send opClose f.payload
    .done { ws with isOpen := false } (.failed .canceled)
  else if f.opcode = opText ∨ f.opcode = opBinary then
    if fragment.inside then .done ws (.failed .network)
    else if f.fin then .done ws (.message f.opcode f.payload)
    else
      match appendFragment round fragment.data f.payload with
      | .error status => .done ws (.failed status)
      | .ok data => .again ws ⟨data, f.opcode, true⟩
  else if f.opcode = opContinuation then
    if fragment.inside = false then .done ws (.failed .network)
    else
      match appendFragment round fragment.data f.payload with
      | .error status => .done ws (.failed status)
      | .ok data =>
        if f.fin = false then .again ws ⟨data, fragment.opcode, true⟩
        else .done ws (.message fragment.opcode data)
  else .done ws (.failed .network)

/-- One round of `dcc_ws_recv`. -/
def Ws.recvRound (ws : Ws) (round : Round) (fragment : Fragment) : Next :=
  match readFrame ws.source round with
  | (s, .error status) => .done { ws with source := s } (.failed status)
  | (s, .ok f) => ({ ws with source := s }).handle round fragment f

/-- The loop of `dcc_ws_recv`; `none` is a loop that has not come to its end. -/
def Ws.recvLoop (rounds : Nat → Round) : Nat → Nat → Ws → Fragment → Option (Ws × Received)
  | 0, _, _, _ => none
  | fuel + 1, i, ws, fragment =>
    match ws.recvRound (rounds i) fragment with
    | .done ws result => some (ws, result)
    | .again ws fragment => Ws.recvLoop rounds fuel (i + 1) ws fragment

/-- `dcc_ws_recv`.  Every round reads two bytes at least, so there are fewer rounds
than bytes. -/
def Ws.recv (ws : Ws) (rounds : Nat → Round) : Option (Ws × Received) :=
  if ws.isOpen = false then some (ws, .failed .invalidArg)
  else ws.recvLoop rounds (ws.source.bytes.length + 1) 0 ⟨[], opText, false⟩

/-! ## Reading a frame back -/

section ReadBack

variable {s : Source} {rest : Bytes}

theorem first_bits : ∀ (fin : Bool) (reserved : Fin 8) (opcode : Fin 16),
    let first := UInt8.ofNat ((if fin then 128 else 0) + reserved * 16 + opcode)
    decide (first &&& 0x80 ≠ 0) = fin ∧ Fin.ofNat 16 (first &&& 0x0f).toNat = opcode ∧
      (first &&& 0x70 ≠ 0 ↔ reserved ≠ 0) := by decide

theorem second_bits : ∀ (masked : Bool) (bits : Fin 128),
    let second := UInt8.ofNat ((if masked then 128 else 0) + bits)
    decide (second &&& 0x80 ≠ 0) = masked ∧ (second &&& 0x7f).toNat = bits := by decide

theorem Header.lengthBits_lt (h : Header) : h.lengthBits < 128 := by
  have hfits := h.fits
  unfold Header.lengthBits
  cases hform : h.form with
  | short =>
    rw [hform] at hfits
    exact Nat.lt_of_le_of_lt hfits (by decide)
  | word => exact (by decide : 126 < 128)
  | quad => exact (by decide : 127 < 128)

theorem readLength_header (h : Header) (hlive : s.Live) (hbytes : s.bytes = h.extension ++ rest) :
    ∃ s' : Source, readLength s h.lengthBits = (s', some h.length) ∧ s'.bytes = rest ∧ s'.Live := by
  have hfits := h.fits
  obtain ⟨s', hread, hrest, hstill⟩ := s.readExact_append hlive hbytes
  refine ⟨s', ?_, hrest, hstill⟩
  unfold readLength Header.lengthBits
  unfold Header.extension at hread
  cases hform : h.form with
  | short =>
    rw [hform] at hread hfits
    simp only [LengthForm.Fits] at hfits
    have hsame : s' = s := by
      have hnone : s.readExact 0 = (s, some []) := by simp [Source.readExact, readLoop]
      simp only [List.length_nil, hnone, Prod.mk.injEq] at hread
      exact hread.1.symm
    simp only [show h.length ≠ 126 by omega, show h.length ≠ 127 by omega, if_false, hsame]
  | word =>
    rw [hform] at hread hfits
    simp only [length_bigEndian] at hread
    simp only [if_true, hread, readBE_bigEndian hfits]
  | quad =>
    rw [hform] at hread hfits
    simp only [length_bigEndian] at hread
    simp only [show (127 : Nat) ≠ 126 by decide, if_false, if_true, hread, readBE_bigEndian hfits]

variable {h : Header}

theorem readExact_header (hlive : s.Live) (hbytes : s.bytes = h.encode ++ rest) :
    ∃ s' : Source, s.readExact 2 = (s', some
        [UInt8.ofNat ((if h.fin then 128 else 0) + h.reserved * 16 + h.opcode),
          UInt8.ofNat ((if h.masked then 128 else 0) + h.lengthBits)]) ∧
      s'.bytes = h.extension ++ rest ∧ s'.Live :=
  s.readExact_append (a := [_, _]) hlive hbytes

theorem readFrame_reserved (round : Round) (hlive : s.Live)
    (hbytes : s.bytes = h.encode ++ rest) (hreserved : h.reserved ≠ 0) :
    ∃ s', readFrame s round = (s', .error .network) := by
  obtain ⟨s', hread, -, -⟩ := readExact_header hlive hbytes
  have hbit := (first_bits h.fin h.reserved h.opcode).2.2.mpr hreserved
  refine ⟨s', ?_⟩
  simp only [readFrame, hread, List.getD_cons_zero, if_pos hbit]

/-- **The checks on a header.**  Its bytes are read whatever comes after them; a payload
that is too long and a control frame that is fragmented or too long are refused. -/
theorem readFrame_header (round : Round) (hlive : s.Live)
    (hbytes : s.bytes = h.encode ++ rest) (hplain : h.reserved = 0) :
    ∃ s' : Source, s'.bytes = rest ∧ s'.Live ∧ readFrame s round =
        if h.length > maxMessageBytes then (s', .error .network)
        else if h.opcode ≥ 0x8 ∧ (h.fin = false ∨ h.length > 125) then (s', .error .network)
        else readPayload s' round h.fin h.opcode h.masked h.length := by
  obtain ⟨s₁, hread, hbytes₁, hlive₁⟩ := readExact_header hlive hbytes
  obtain ⟨s', hlength, hbytes', hlive'⟩ := readLength_header h hlive₁ hbytes₁
  obtain ⟨hfin, hopcode, hbit⟩ := first_bits h.fin h.reserved h.opcode
  obtain ⟨hmasked, hbits⟩ := second_bits h.masked ⟨h.lengthBits, h.lengthBits_lt⟩
  have hclear := mt hbit.mp (not_not.mpr hplain)
  refine ⟨s', hbytes', hlive', ?_⟩
  simp only [readFrame, hread, List.getD_cons_zero, List.getD_cons_succ, if_neg hclear, hfin,
    hopcode, hmasked, hbits, hlength]

theorem readPayload_frame (round : Round) {f : Frame} (hlive : s.Live) (hbytes : s.bytes = f.mask ++
      (if f.header.masked then xorMask f.mask f.payload else f.payload) ++ rest) :
    (round.payload = false ∧ ∃ s', readPayload s round f.header.fin f.header.opcode
        f.header.masked f.header.length = (s', .error .nomem)) ∨
      ∃ s' : Source, readPayload s round f.header.fin f.header.opcode f.header.masked
          f.header.length = (s', .ok ⟨f.header.fin, f.header.opcode, f.payload⟩) ∧
        s'.bytes = rest ∧ s'.Live := by
  rw [List.append_assoc] at hbytes
  obtain ⟨s₁, hread, hbytes₁, hlive₁⟩ := s.readExact_append hlive hbytes
  have hmaskLength := f.maskLength
  have hpayloadLength := f.payloadLength
  have hmask : ∃ mask, (if f.header.masked then s.readExact 4 else (s, some [0, 0, 0, 0])) =
      (s₁, some mask) ∧ (f.header.masked = true → mask = f.mask) := by
    by_cases hmasked : f.header.masked = true
    · rw [if_pos hmasked] at hmaskLength
      rw [if_pos hmasked, ← hmaskLength]
      exact ⟨f.mask, hread, fun _ => rfl⟩
    · rw [if_neg hmasked] at hmaskLength
      have hnone : s.readExact 0 = (s, some []) := by simp [Source.readExact, readLoop]
      rw [hmaskLength, hnone] at hread
      rw [if_neg hmasked, (Prod.mk.inj hread).1]
      exact ⟨_, rfl, fun h => absurd h hmasked⟩
  obtain ⟨mask, hmask, hsame⟩ := hmask
  unfold readPayload
  rw [hmask]
  simp only
  have hbody : (if f.header.masked then xorMask f.mask f.payload else f.payload).length =
      f.header.length := by
    split
    · rw [length_xorMask, hpayloadLength]
    · exact hpayloadLength
  by_cases hzero : f.header.length = 0
  · have hempty : f.payload = [] := List.eq_nil_of_length_eq_zero (hpayloadLength.trans hzero)
    rw [List.eq_nil_of_length_eq_zero (hbody.trans hzero)] at hbytes₁
    rw [if_pos hzero, hempty]
    exact Or.inr ⟨s₁, rfl, hbytes₁, hlive₁⟩
  · rw [if_neg hzero]
    cases hmemory : round.payload with
    | false => exact Or.inl ⟨rfl, s₁, rfl⟩
    | true =>
      obtain ⟨s', hread', hbytes', hlive'⟩ := s₁.readExact_append hlive₁ hbytes₁
      rw [hbody] at hread'
      refine Or.inr ⟨s', ?_, hbytes', hlive'⟩
      simp only [hread', Bool.true_eq_false, if_false]
      by_cases hmasked : f.header.masked = true
      · simp only [if_pos hmasked, hsame hmasked, xorMask_xorMask]
      · simp only [if_neg hmasked]

/-- **A frame is read whole**: it comes back unmasked and nothing after it is touched. -/
theorem readFrame_frame (round : Round) {f : Frame} (hlive : s.Live)
    (hbytes : s.bytes = f.encode ++ rest)
    (hlength : f.payload.length ≤ maxMessageBytes)
    (hcontrol : f.header.opcode ≥ 0x8 → f.header.fin = true ∧ f.payload.length ≤ 125) :
    (round.payload = false ∧ ∃ s', readFrame s round = (s', .error .nomem)) ∨ ∃ s' : Source,
        readFrame s round = (s', .ok ⟨f.header.fin, f.header.opcode, f.payload⟩) ∧
        s'.bytes = rest ∧ s'.Live := by
  rw [f.payloadLength] at hlength hcontrol
  rw [Frame.encode, List.append_assoc, List.append_assoc] at hbytes
  obtain ⟨s₁, hbytes₁, hlive₁, hread⟩ := readFrame_header round hlive hbytes f.plain
  have hlegal : ¬ (f.header.opcode ≥ 0x8 ∧ (f.header.fin = false ∨ f.header.length > 125)) := by
    rintro ⟨hop, hbad⟩
    obtain ⟨hfin, hshort⟩ := hcontrol hop
    rcases hbad with hbad | hbad
    · rw [hfin] at hbad
      exact Bool.noConfusion hbad
    · omega
  rw [if_neg (by omega), if_neg hlegal] at hread
  rw [hread]
  exact readPayload_frame round hlive₁ (by rw [hbytes₁, List.append_assoc])

end ReadBack

end Dcc.WebSocket
