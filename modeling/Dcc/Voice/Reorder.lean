import Mathlib.Data.List.Basic
import Mathlib.Data.List.Perm.Basic
import Dcc.Basic

/-!
# The receive reorder buffer of a voice connection

RTP packets arrive over UDP in any order.  With a reorder window the client
keeps up to `reorderQueueCap` of them in slots and hands them to
`dcc_voice_client_process_rtp_packet` by sequence number; with a jitter delay a
packet also waits for its release time.  What processing a packet comes back
with is an input here: it depends on keys, codecs and listeners.

* `Receiver` — the fields of the connection, and a record of the packets that
  were received, handed on and dropped;
* `drainLoop`, `receiveRtpPacketAt`, `flushReceiveReorder`,
  `tickReceiveJitter` — the code;
* `drainLoop_returns` — the drain loop ends from every state, so `drain` is
  the loop and not a cut-off of it;
* `drainLoop_invariant` — what every round of the loop keeps, the loop keeps.
-/

namespace Dcc.Voice

/-- `DCC_VOICE_REORDER_QUEUE_CAP`. -/
def reorderQueueCap : Nat := 16

/-- `DCC_VOICE_REORDER_PACKET_CAP`. -/
def reorderPacketCap : Nat := 4096

/-- `DCC_VOICE_RTP_HEADER_SIZE`. -/
def rtpHeaderSize : Nat := 12

/-- `UINT32_MAX`. -/
def uint32Max : Nat := 2 ^ 32 - 1

/-- `dcc_voice_u32_saturating_inc`. -/
def u32SaturatingInc (value : Nat) : Nat := if value < uint32Max then value + 1 else value

/-- `dcc_voice_sequence_distance`. -/
def sequenceDistance (expected sequence : UInt16) : UInt16 := sequence - expected

/-- `dcc_voice_sequence_before`: the difference, read as a signed number, is
negative. -/
def sequenceBefore (sequence expected : UInt16) : Bool := (sequence - expected).toInt16 < 0

/-- `dcc_voice_jitter_release_at`. -/
def jitterReleaseAt (nowMs delayMs : Nat) : Nat :=
  if nowMs > wordMax - delayMs then wordMax else nowMs + delayMs

/-- `dcc_voice_read_be16(packet + 2U)`. -/
def sequenceOf (packet : Bytes) : UInt16 :=
  ((packet.getD 2 0).toUInt16 <<< 8) ||| (packet.getD 3 0).toUInt16

/-- `packet[1] & 0x7F`. -/
def payloadType (packet : Bytes) : UInt8 := packet.getD 1 0 &&& 0x7F

/-- A used `dcc_voice_reorder_slot_t`. -/
structure ReorderSlot where
  sequence : UInt16
  releaseAtMs : Nat
  packet : Bytes
  deriving DecidableEq, Repr

/-- `receive_reorder[DCC_VOICE_REORDER_QUEUE_CAP]`; an unused slot is `none`. -/
structure Slots where
  cells : List (Option ReorderSlot)
  length_eq : cells.length = reorderQueueCap

/-- Writing one cell. -/
def Slots.put (slots : Slots) (index : Nat) (cell : Option ReorderSlot) : Slots where
  cells := slots.cells.set index cell
  length_eq := by simpa using slots.length_eq

/-- The slots in use, in array order. -/
def Slots.used (slots : Slots) : List ReorderSlot := slots.cells.filterMap id

/-- All slots unused. -/
def Slots.empty : Slots := ⟨List.replicate reorderQueueCap none, by simp⟩

/-- The receiving side of a connection.  The last three fields record what the
code did; it never reads them. -/
structure Receiver where
  window : Fin reorderQueueCap
  jitterDelayMs : Nat
  started : Bool
  expected : UInt16
  packetsLost : Nat
  packetsDropped : Nat
  slots : Slots
  received : List Bytes
  handed : List Bytes
  dropped : List Bytes

namespace Receiver

/-- A connection after `dcc_voice_client_set_receive_reorder_window` and
`dcc_voice_client_set_receive_jitter_delay`. -/
def start (window : Fin reorderQueueCap) (jitterDelayMs : Nat) : Receiver where
  window := window
  jitterDelayMs := jitterDelayMs
  started := false
  expected := 0
  packetsLost := 0
  packetsDropped := 0
  slots := .empty
  received := []
  handed := []
  dropped := []

/-- `dcc_voice_reorder_count`. -/
def reorderCount (s : Receiver) : Nat := s.slots.used.length

/-- `dcc_voice_reorder_find`. -/
def reorderFind (s : Receiver) (sequence : UInt16) : Option Nat :=
  s.slots.cells.findIdx? (fun cell => cell.any (fun slot => slot.sequence == sequence))

/-- `dcc_voice_reorder_free_slot`. -/
def reorderFreeSlot (s : Receiver) : Option Nat := s.slots.cells.findIdx? Option.isNone

/-- One round of the scan of `dcc_voice_reorder_next_slot`. -/
def nextSlotScan (expected : UInt16) (best : Option ReorderSlot) (slot : ReorderSlot) :
    Option ReorderSlot :=
  if sequenceBefore slot.sequence expected then best
  else
    match best with
    | none => some slot
    | some found =>
      if sequenceDistance expected slot.sequence < sequenceDistance expected found.sequence then
        some slot
      else best

/-- `dcc_voice_reorder_next_slot`. -/
def reorderNextSlot (s : Receiver) : Option ReorderSlot :=
  s.slots.used.foldl (nextSlotScan s.expected) none

/-- `receive_expected_sequence++` and one more packet lost. -/
def skip (s : Receiver) : Receiver :=
  { s with expected := s.expected + 1, packetsLost := u32SaturatingInc s.packetsLost }

/-- `receive_expected_sequence++` after a packet was processed. -/
def advance (s : Receiver) : Receiver := { s with expected := s.expected + 1 }

/-- One more packet dropped. -/
def drop (s : Receiver) (packet : Bytes) : Receiver :=
  { s with packetsDropped := u32SaturatingInc s.packetsDropped, dropped := s.dropped ++ [packet] }

/-- The slot at `index` is emptied and its packet handed to processing. -/
def hand (s : Receiver) (index : Nat) (packet : Bytes) : Receiver :=
  { s with slots := s.slots.put index none, handed := s.handed ++ [packet] }

/-- What a round of the drain loop does when no slot has the expected number:
stop, or go past the number. -/
def drainWaits (s : Receiver) (flush : Bool) (nowMs : Nat) : Bool :=
  if s.reorderCount = 0 then true
  else if flush then false
  else if s.jitterDelayMs ≠ 0 ∧ s.reorderNextSlot.any (fun next => nowMs ≥ next.releaseAtMs) then
    false
  else s.reorderCount ≤ s.window.val

/-- The loop of `dcc_voice_reorder_drain`; `process` is what processing a packet
comes back with.  Without fuel there is no result. -/
def drainLoop (process : Bytes → Status) (flush : Bool) (nowMs : Nat) :
    Nat → Receiver → Option (Receiver × Status)
  | 0, _ => none
  | fuel + 1, s =>
    match s.reorderFind s.expected with
    | some index =>
      match s.slots.cells.getD index none with
      | none => some (s, .ok)
      | some slot =>
        if !flush && s.jitterDelayMs ≠ 0 && nowMs < slot.releaseAtMs then some (s, .ok)
        else
          let s := s.hand index slot.packet
          let status := process slot.packet
          if status ≠ .ok then some (s, status)
          else drainLoop process flush nowMs fuel s.advance
    | none =>
      if s.drainWaits flush nowMs then some (s, .ok)
      else drainLoop process flush nowMs fuel s.skip

/-- Rounds that the drain loop never uses up (`drainLoop_returns`): each slot is
handed on once, after at most `2 ^ 16` numbers were gone past. -/
def drainFuel : Nat := (reorderQueueCap + 1) * 2 ^ 16

/-- `dcc_voice_reorder_drain`. -/
def drain (s : Receiver) (process : Bytes → Status) (flush : Bool) (nowMs : Nat) :
    Receiver × Status :=
  (drainLoop process flush nowMs drainFuel s).getD (s, .ok)

/-- `while (distance > window)`: the expected number moves up to the window. -/
def closeGap (s : Receiver) : Nat → Receiver
  | 0 => s
  | distance + 1 => if distance + 1 > s.window.val then s.skip.closeGap distance else s

/-- The packet passes the checks of the header. -/
def admits (packet : Bytes) : Except Status Unit :=
  if packet.length < rtpHeaderSize || packet.getD 0 0 >>> 6 != 2 then .error .invalidArg
  else if 72 ≤ payloadType packet && payloadType packet ≤ 76 then .error .ok
  else if packet.length > reorderPacketCap then .error .invalidArg
  else .ok ()

/-- The record of an arrival. -/
def note (s : Receiver) (packet : Bytes) : Receiver :=
  { s with received := s.received ++ [packet] }

/-- The first packet says which number is expected. -/
def beginAt (s : Receiver) (sequence : UInt16) : Receiver :=
  if s.started then s else { s with expected := sequence, started := true }

/-- Filling a slot. -/
def store (s : Receiver) (index : Nat) (slot : ReorderSlot) : Receiver :=
  { s with slots := s.slots.put index (some slot) }

/-- `dcc_voice_client_receive_rtp_packet_at`, from the sequence number on. -/
def acceptPacket (s : Receiver) (packet : Bytes) (nowMs : Nat) (process : Bytes → Status) :
    Receiver × Status :=
  let sequence := sequenceOf packet
  let s := s.note packet
  if s.started && sequenceBefore sequence s.expected then (s.drop packet, .ok)
  else
    let s := s.beginAt sequence
    if (s.reorderFind sequence).isSome then (s.drop packet, .ok)
    else
      let s := s.closeGap (sequenceDistance s.expected sequence).toNat
      match s.reorderFreeSlot with
      | none => (s.drop packet, .nomem)
      | some index =>
        (s.store index ⟨sequence, jitterReleaseAt nowMs s.jitterDelayMs, packet⟩).drain process
          false nowMs

/-- `dcc_voice_client_receive_rtp_packet_at`. -/
def receiveRtpPacketAt (s : Receiver) (packet : Bytes) (nowMs : Nat) (process : Bytes → Status) :
    Receiver × Status :=
  if s.window.val = 0 then
    ({ s.note packet with handed := s.handed ++ [packet] }, process packet)
  else
    match admits packet with
    | .error status => (s, status)
    | .ok _ => s.acceptPacket packet nowMs process

/-- `dcc_voice_client_flush_receive_reorder`. -/
def flushReceiveReorder (s : Receiver) (process : Bytes → Status) : Receiver × Status :=
  if !s.started then (s, .ok) else s.drain process true 0

/-- `dcc_voice_client_tick_receive_jitter`. -/
def tickReceiveJitter (s : Receiver) (nowMs : Nat) (process : Bytes → Status) :
    Receiver × Status :=
  if !s.started then (s, .ok) else s.drain process false nowMs

/-- What happens to a connection that receives one stream. -/
inductive Event
  | packet (packet : Bytes) (nowMs : Nat) (process : Bytes → Status)
  | tick (nowMs : Nat) (process : Bytes → Status)
  | flush (process : Bytes → Status)
  | setJitterDelay (delayMs : Nat)

/-- One call. -/
def next (s : Receiver) : Event → Receiver
  | .packet packet nowMs process => (s.receiveRtpPacketAt packet nowMs process).1
  | .tick nowMs process => (s.tickReceiveJitter nowMs process).1
  | .flush process => (s.flushReceiveReorder process).1
  | .setJitterDelay delayMs => { s with jitterDelayMs := delayMs }

end Receiver

section Distance

variable (a b c : UInt16)

theorem toNat_distance :
    (sequenceDistance a b).toNat = (2 ^ 16 - a.toNat + b.toNat) % 2 ^ 16 :=
  UInt16.toNat_sub b a

theorem distance_lt : (sequenceDistance a b).toNat < 2 ^ 16 := UInt16.toNat_lt _

theorem distance_trans : (sequenceDistance a c).toNat =
    ((sequenceDistance a b).toNat + (sequenceDistance b c).toNat) % 2 ^ 16 := by
  have ha := a.toNat_lt
  have hb := b.toNat_lt
  have hc := c.toNat_lt
  simp only [toNat_distance]
  omega

@[simp] theorem distance_self : (sequenceDistance a a).toNat = 0 := by
  simp [sequenceDistance]

theorem distance_eq_zero_iff : (sequenceDistance a b).toNat = 0 ↔ a = b := by
  have ha := a.toNat_lt
  have hb := b.toNat_lt
  rw [toNat_distance, ← UInt16.toNat_inj]
  omega

theorem distance_succ : (sequenceDistance a (a + 1)).toNat = 1 := by
  have ha := a.toNat_lt
  rw [toNat_distance, UInt16.toNat_add]
  simp
  omega

theorem distance_succ_left (h : a ≠ b) :
    (sequenceDistance (a + 1) b).toNat + 1 = (sequenceDistance a b).toNat := by
  have htrans := distance_trans a (a + 1) b
  have hlt := distance_lt (a + 1) b
  have hpos : (sequenceDistance a b).toNat ≠ 0 := fun h0 => h ((distance_eq_zero_iff a b).mp h0)
  rw [distance_succ] at htrans
  omega

theorem sequenceBefore_iff :
    sequenceBefore a b = true ↔ 2 ^ 15 ≤ (sequenceDistance b a).toNat := by
  have hlt := UInt16.toNat_lt (a - b)
  simp only [sequenceBefore, decide_eq_true_eq, sequenceDistance, Int16.lt_iff_toInt_lt]
  have htoInt : (a - b).toInt16.toInt = (a - b).toBitVec.toInt := rfl
  rw [htoInt, BitVec.toInt_eq_toNat_cond]
  have hnat : (a - b).toBitVec.toNat = (a - b).toNat := rfl
  rw [hnat]
  simp only [Int16.toInt_zero]
  split
  · omega
  · omega

end Distance

section Slots

theorem filterMap_set_some {cells : List (Option ReorderSlot)} {index : Nat} {slot : ReorderSlot}
    (h : cells[index]? = some none) :
    ((cells.set index (some slot)).filterMap id).Perm (slot :: cells.filterMap id) := by
  induction cells generalizing index with
  | nil => simp at h
  | cons cell rest ih =>
    cases index with
    | zero =>
      obtain rfl : cell = none := by simpa using h
      simp
    | succ index =>
      have hrest := ih (by simpa using h)
      cases cell with
      | none => simpa using hrest
      | some other =>
        simpa using (hrest.cons other).trans (List.Perm.swap slot other _)

variable {cells : List (Option ReorderSlot)}

theorem filterMap_set_none {index : Nat} {slot : ReorderSlot}
    (h : cells[index]? = some (some slot)) :
    (cells.filterMap id).Perm (slot :: (cells.set index none).filterMap id) := by
  obtain ⟨hlt, hcell⟩ := List.getElem?_eq_some_iff.mp h
  have hempty : (cells.set index none)[index]? = some none := List.getElem?_set_self hlt
  have hrefill := @filterMap_set_some _ _ slot hempty
  rwa [List.set_set, ← hcell, List.set_getElem_self] at hrefill

theorem length_filterMap_of_isSome
    (h : ∀ cell ∈ cells, cell.isSome) : (cells.filterMap id).length = cells.length := by
  induction cells with
  | nil => rfl
  | cons cell rest ih =>
    have hrest := ih (fun other hother => h other (List.mem_cons_of_mem _ hother))
    cases cell with
    | none => simp at h
    | some slot => simpa using hrest

variable {s : Receiver} {index : Nat} {slot : ReorderSlot} {sequence : UInt16}

@[simp] theorem Slots.empty_used : Slots.empty.used = [] := by
  simp [Slots.empty, Slots.used]

theorem Slots.used_put_some (slot : ReorderSlot) (h : s.slots.cells[index]? = some none) :
    (s.slots.put index (some slot)).used.Perm (slot :: s.slots.used) :=
  filterMap_set_some h

theorem Slots.used_put_none (h : s.slots.cells[index]? = some (some slot)) :
    s.slots.used.Perm (slot :: (s.slots.put index none).used) :=
  filterMap_set_none h

theorem reorderFind_some (h : s.reorderFind sequence = some index) :
    ∃ slot, s.slots.cells[index]? = some (some slot) ∧ slot.sequence = sequence := by
  obtain ⟨hlt, hp, -⟩ := List.findIdx?_eq_some_iff_getElem.mp h
  obtain ⟨slot, hslot, hsequence⟩ := Option.any_eq_true _ _ |>.mp hp
  refine ⟨slot, ?_, by simpa using hsequence⟩
  rw [List.getElem?_eq_getElem hlt, hslot]

theorem reorderFind_none (h : s.reorderFind sequence = none) :
    ∀ slot ∈ s.slots.used, slot.sequence ≠ sequence := by
  intro slot hslot heq
  obtain ⟨cell, hcell, hsome⟩ := List.mem_filterMap.mp hslot
  have := List.findIdx?_eq_none_iff.mp h cell hcell
  simp only [id_eq] at hsome
  simp [hsome, heq] at this

theorem reorderFreeSlot_some (h : s.reorderFreeSlot = some index) :
    s.slots.cells[index]? = some none := by
  obtain ⟨hlt, hp, -⟩ := List.findIdx?_eq_some_iff_getElem.mp h
  rw [List.getElem?_eq_getElem hlt]
  simpa using hp

theorem reorderFreeSlot_none (h : s.reorderFreeSlot = none) :
    s.slots.used.length = reorderQueueCap := by
  have hall : ∀ cell ∈ s.slots.cells, cell.isSome := by
    intro cell hcell
    have := List.findIdx?_eq_none_iff.mp h cell hcell
    cases cell with
    | none => simp at this
    | some slot => rfl
  rw [← s.slots.length_eq]
  exact length_filterMap_of_isSome hall

end Slots

section Loop

variable {process : Bytes → Status} {flush : Bool} {nowMs : Nat} {s s' : Receiver}
  {status : Status}

theorem Receiver.used_ne_nil_of_not_waits (h : s.drainWaits flush nowMs = false) :
    s.slots.used ≠ [] := by
  intro hnil
  simp [Receiver.drainWaits, Receiver.reorderCount, hnil] at h

/-- **The loop ends.**  Every round hands on a slot or comes one number closer to
one, so from a used slot at distance `d` no more rounds are needed than numbers
on the circle for each slot, and `d` more. -/
theorem Receiver.drainLoop_returns (fuel : Nat) (s : Receiver)
    (h : (s.slots.used = [] ∧ 0 < fuel) ∨ ∃ slot ∈ s.slots.used,
      s.reorderCount * 2 ^ 16 + (sequenceDistance s.expected slot.sequence).toNat < fuel) :
    ∃ result, drainLoop process flush nowMs fuel s = some result := by
  induction fuel generalizing s with
  | zero =>
    rcases h with ⟨-, h⟩ | ⟨slot, -, h⟩
    · omega
    · omega
  | succ fuel ih =>
    unfold drainLoop
    cases hfind : s.reorderFind s.expected with
    | some index =>
      obtain ⟨slot, hcell, hsequence⟩ := reorderFind_some hfind
      simp only [List.getD_eq_getElem?_getD, hcell, Option.getD_some]
      have hperm := Slots.used_put_none hcell
      split
      · exact ⟨_, rfl⟩
      · split
        · exact ⟨_, rfl⟩
        · refine ih _ ?_
          have hcount : s.reorderCount = (s.slots.put index none).used.length + 1 := by
            rw [Receiver.reorderCount, hperm.length_eq, List.length_cons]
          rcases h with ⟨hnil, -⟩ | ⟨slot', -, hfuel⟩
          · simp [hnil] at hperm
          · cases hrest : (s.slots.put index none).used with
            | nil => exact .inl ⟨hrest, by omega⟩
            | cons other rest =>
              refine .inr ⟨other, by simp [Receiver.advance, Receiver.hand, hrest], ?_⟩
              have hlt := distance_lt (s.expected + 1) other.sequence
              have hcount' : (s.hand index slot.packet).advance.reorderCount =
                  (s.slots.put index none).used.length := rfl
              have hexpected : (s.hand index slot.packet).advance.expected = s.expected + 1 := rfl
              rw [hcount', hexpected]
              rw [hcount, Nat.add_one_mul] at hfuel
              generalize (s.slots.put index none).used.length * 2 ^ 16 = total at hfuel ⊢
              omega
    | none =>
      simp only
      split
      · exact ⟨_, rfl⟩
      · next hwaits =>
        have hused := Receiver.used_ne_nil_of_not_waits (by simpa using hwaits)
        rcases h with ⟨hnil, -⟩ | ⟨slot, hslot, hfuel⟩
        · exact absurd hnil hused
        · refine ih _ (.inr ⟨slot, hslot, ?_⟩)
          have hne : s.expected ≠ slot.sequence :=
            fun heq => reorderFind_none hfind slot hslot heq.symm
          have hstep := distance_succ_left s.expected slot.sequence hne
          have hcount : s.skip.reorderCount = s.reorderCount := rfl
          have hexpected : s.skip.expected = s.expected + 1 := rfl
          rw [hcount, hexpected]
          omega

theorem Receiver.drain_eq (process : Bytes → Status) (flush : Bool) (nowMs : Nat) (s : Receiver) :
    drainLoop process flush nowMs drainFuel s = some (s.drain process flush nowMs) := by
  have hcount : s.reorderCount ≤ reorderQueueCap := by
    rw [Receiver.reorderCount, ← s.slots.length_eq]
    exact List.length_filterMap_le _ _
  have hreturns : ∃ result, drainLoop process flush nowMs drainFuel s = some result := by
    refine Receiver.drainLoop_returns _ _ ?_
    cases hused : s.slots.used with
    | nil => exact .inl ⟨rfl, Nat.mul_pos (Nat.succ_pos _) (Nat.two_pow_pos 16)⟩
    | cons slot rest =>
      refine .inr ⟨slot, by simp, ?_⟩
      have hlt := distance_lt s.expected slot.sequence
      calc s.reorderCount * 2 ^ 16 + (sequenceDistance s.expected slot.sequence).toNat
          < s.reorderCount * 2 ^ 16 + 2 ^ 16 := Nat.add_lt_add_left hlt _
        _ = (s.reorderCount + 1) * 2 ^ 16 := (Nat.add_one_mul _ _).symm
        _ ≤ drainFuel := Nat.mul_le_mul_right _ (Nat.add_le_add_right hcount 1)
  obtain ⟨result, hresult⟩ := hreturns
  rw [Receiver.drain, hresult, Option.getD_some]

variable {result : Receiver × Status}

theorem Receiver.drainLoop_mono {fuel fuel' : Nat}
    (hle : fuel ≤ fuel') (h : drainLoop process flush nowMs fuel s = some result) :
    drainLoop process flush nowMs fuel' s = some result := by
  induction fuel generalizing fuel' s with
  | zero => simp [drainLoop] at h
  | succ fuel ih =>
    obtain ⟨more, rfl⟩ : ∃ more, fuel' = more + 1 := ⟨fuel' - 1, by omega⟩
    unfold drainLoop at h ⊢
    cases hfind : s.reorderFind s.expected with
    | some index =>
      obtain ⟨slot, hcell, -⟩ := reorderFind_some hfind
      simp only [hfind, List.getD_eq_getElem?_getD, hcell, Option.getD_some] at h ⊢
      split
      · next hheld => rwa [if_pos hheld] at h
      · next hheld =>
        rw [if_neg hheld] at h
        split
        · next hstatus => rwa [if_pos hstatus] at h
        · next hstatus =>
          rw [if_neg hstatus] at h
          exact ih (by omega) h
    | none =>
      simp only [hfind] at h ⊢
      split
      · next hwaits => rwa [if_pos hwaits] at h
      · next hwaits =>
        rw [if_neg hwaits] at h
        exact ih (by omega) h

theorem Receiver.drain_of_loop {fuel : Nat}
    (h : drainLoop process flush nowMs fuel s = some result) :
    s.drain process flush nowMs = result := by
  have hdrain := Receiver.drain_eq process flush nowMs s
  rcases Nat.le_total fuel drainFuel with hle | hle
  · exact Option.some.inj (hdrain.symm.trans (Receiver.drainLoop_mono hle h))
  · exact Option.some.inj ((Receiver.drainLoop_mono hle hdrain).symm.trans h)

section

variable {P : Receiver → Prop}
  (hfailed : ∀ s index slot, P s → s.slots.cells[index]? = some (some slot) →
    slot.sequence = s.expected → P (s.hand index slot.packet))
  (hadvance : ∀ s index slot, P s → s.slots.cells[index]? = some (some slot) →
    slot.sequence = s.expected → P (s.hand index slot.packet).advance)
  (hskip : ∀ s, P s → s.slots.used ≠ [] →
    (∀ slot ∈ s.slots.used, slot.sequence ≠ s.expected) → P s.skip)
include hfailed hadvance hskip

/-- **The loop keeps what each of its rounds keeps**: handing on the packet of
the expected number, with either outcome, and going past a number that no slot
has. -/
theorem Receiver.drainLoop_invariant
    (fuel : Nat) (hs : P s) (h : drainLoop process flush nowMs fuel s = some (s', status)) :
    P s' := by
  induction fuel generalizing s with
  | zero => simp [drainLoop] at h
  | succ fuel ih =>
    unfold drainLoop at h
    cases hfind : s.reorderFind s.expected with
    | some index =>
      obtain ⟨slot, hcell, hsequence⟩ := reorderFind_some hfind
      simp only [hfind, List.getD_eq_getElem?_getD, hcell, Option.getD_some] at h
      split at h
      · obtain ⟨rfl, -⟩ := Prod.mk.inj (Option.some.inj h)
        exact hs
      · split at h
        · obtain ⟨rfl, -⟩ := Prod.mk.inj (Option.some.inj h)
          exact hfailed s index slot hs hcell hsequence
        · exact ih (hadvance s index slot hs hcell hsequence) h
    | none =>
      simp only [hfind] at h
      split at h
      · obtain ⟨rfl, -⟩ := Prod.mk.inj (Option.some.inj h)
        exact hs
      · next hwaits =>
        have hused := Receiver.used_ne_nil_of_not_waits (by simpa using hwaits)
        exact ih (hskip s hs hused (reorderFind_none hfind)) h

theorem Receiver.drain_invariant (hs : P s) : P (s.drain process flush nowMs).1 :=
  Receiver.drainLoop_invariant hfailed hadvance hskip drainFuel hs
    (Receiver.drain_eq process flush nowMs s)

end

end Loop

end Dcc.Voice
