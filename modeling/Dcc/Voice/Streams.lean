import Mathlib.Data.List.Chain
import Dcc.Voice.ReorderOrder
import Dcc.Lib.Reach

/-!
# Two speakers on one voice connection

Every speaker numbers their RTP packets on their own, and a voice connection
carries the packets of all of them.  The reorder buffer has one expected number
and one row of slots for the whole connection.

What is handed on of a stream is compared with a connection that receives the
stream alone: the same calls without the packets of other SSRCs (`ownEvents`).

* `drain_single` — the drain loop on a connection where one packet of the
  expected number waits;
* `Mirrors` — how the state of a connection and of the stream alone relate as
  long as every packet arrives at an empty buffer with the expected number;
* `streams_independent` — then the streams do not disturb each other; and
  without a jitter delay this is the only way for them not to.
-/

namespace Dcc.Voice

/-- `dcc_voice_read_be32(packet + 8U)`. -/
def ssrcOf (packet : Bytes) : UInt32 :=
  ((packet.getD 8 0).toUInt32 <<< 24) ||| ((packet.getD 9 0).toUInt32 <<< 16) |||
    ((packet.getD 10 0).toUInt32 <<< 8) ||| (packet.getD 11 0).toUInt32

namespace Receiver

/-- The packet of an arrival. -/
def Event.packet? : Event → Option Bytes
  | .packet bytes _ _ => some bytes
  | _ => none

/-- The event is not the arrival of a packet with another SSRC. -/
def Event.isOf (ssrc : UInt32) (event : Event) : Bool :=
  event.packet?.all (fun packet => ssrcOf packet == ssrc)

/-- What happens to a connection that receives the stream alone. -/
def ownEvents (ssrc : UInt32) (events : List Event) : List Event :=
  events.filter (Event.isOf ssrc)

/-- The packets of one stream. -/
def ofStream (ssrc : UInt32) (packets : List Bytes) : List Bytes :=
  packets.filter (fun packet => ssrcOf packet == ssrc)

section Single

variable {u : Receiver} {slot : ReorderSlot}

theorem drain_empty (h : u.slots.used = []) (process : Bytes → Status) (flush : Bool)
    (nowMs : Nat) : u.drain process flush nowMs = (u, .ok) := by
  have hfind : u.reorderFind u.expected = none := by
    cases hfind : u.reorderFind u.expected with
    | none => rfl
    | some index =>
      obtain ⟨slot, hcell, -⟩ := reorderFind_some hfind
      have := (Slots.used_put_none hcell).mem_iff.mpr (List.mem_cons_self)
      simp [h] at this
  have hwaits : u.drainWaits flush nowMs = true := by
    simp [drainWaits, reorderCount, h]
  have hloop : drainLoop process flush nowMs 1 u = some (u, .ok) := by
    simp [drainLoop, hfind, hwaits]
  exact drain_of_loop hloop

theorem drain_other (hused : u.slots.used = [slot]) (hother : slot.sequence ≠ u.expected)
    (hdelay : u.jitterDelayMs = 0) (hwindow : 0 < u.window.val) (process : Bytes → Status)
    (nowMs : Nat) : u.drain process false nowMs = (u, .ok) := by
  have hfind : u.reorderFind u.expected = none := by
    cases hfind : u.reorderFind u.expected with
    | none => rfl
    | some index =>
      obtain ⟨found, hcell, hsequence⟩ := reorderFind_some hfind
      have hmem := (Slots.used_put_none hcell).mem_iff.mpr List.mem_cons_self
      rw [hused, List.mem_singleton] at hmem
      exact absurd (hmem ▸ hsequence) hother
  have hwaits : u.drainWaits false nowMs = true := by
    simp [drainWaits, reorderCount, hused, hdelay]
    omega
  have hloop : drainLoop process false nowMs 1 u = some (u, .ok) := by
    simp [drainLoop, hfind, hwaits]
  exact drain_of_loop hloop

/-- The packet stays in its slot until it is due. -/
def Held (u : Receiver) (slot : ReorderSlot) (flush : Bool) (nowMs : Nat) : Prop :=
  flush = false ∧ u.jitterDelayMs ≠ 0 ∧ nowMs < slot.releaseAtMs

/-- `u'` is `u` after the only waiting packet was handed on. -/
structure Settled (u u' : Receiver) (slot : ReorderSlot) (process : Bytes → Status) : Prop where
  window : u'.window = u.window
  delay : u'.jitterDelayMs = u.jitterDelayMs
  started : u'.started = u.started
  received : u'.received = u.received
  used : u'.slots.used = []
  handed : u'.handed = u.handed ++ [slot.packet]
  expected : u'.expected = if process slot.packet = .ok then slot.sequence + 1 else slot.sequence

/-- **One packet waits and has the expected number**: it is held or handed on. -/
theorem drain_single (hused : u.slots.used = [slot]) (hsequence : slot.sequence = u.expected)
    (process : Bytes → Status) (flush : Bool) (nowMs : Nat) :
    (u.Held slot flush nowMs → (u.drain process flush nowMs).1 = u) ∧
      (¬ u.Held slot flush nowMs → Settled u (u.drain process flush nowMs).1 slot process) := by
  obtain ⟨index, hfind, hcell⟩ : ∃ index, u.reorderFind u.expected = some index ∧
      u.slots.cells[index]? = some (some slot) := by
    cases hfind : u.reorderFind u.expected with
    | none => exact absurd hsequence (reorderFind_none hfind slot (by simp [hused]))
    | some index =>
      obtain ⟨found, hcell, -⟩ := reorderFind_some hfind
      have hmem := (Slots.used_put_none hcell).mem_iff.mpr List.mem_cons_self
      rw [hused, List.mem_singleton] at hmem
      exact ⟨index, rfl, hmem ▸ hcell⟩
  have hgone : (u.hand index slot.packet).slots.used = [] := by
    have hperm := Slots.used_put_none hcell
    rw [hused] at hperm
    have hput : (u.slots.put index none).used = [] := by simpa using hperm
    exact hput
  have hround : ∀ fuel, drainLoop process flush nowMs (fuel + 1) u =
      if !flush && u.jitterDelayMs ≠ 0 && nowMs < slot.releaseAtMs then some (u, .ok)
      else if process slot.packet ≠ .ok then
        some (u.hand index slot.packet, process slot.packet)
      else drainLoop process flush nowMs fuel (u.hand index slot.packet).advance := by
    intro fuel
    rw [drainLoop]
    simp only [hfind, List.getD_eq_getElem?_getD, hcell, Option.getD_some]
  constructor
  · rintro ⟨hflush, hdelay, hdue⟩
    have hloop : drainLoop process flush nowMs 1 u = some (u, .ok) := by
      rw [hround, if_pos (by simp [hflush, hdelay, hdue])]
    rw [drain_of_loop hloop]
  · intro hheld
    have hcond : ¬ (!flush && decide (u.jitterDelayMs ≠ 0) &&
        decide (nowMs < slot.releaseAtMs)) = true := by
      simp only [Bool.and_eq_true, Bool.not_eq_true', decide_eq_true_eq]
      exact fun h => hheld ⟨h.1.1, h.1.2, h.2⟩
    by_cases hstatus : process slot.packet = .ok
    · have hempty := drain_empty
        (show (u.hand index slot.packet).advance.slots.used = [] from hgone) process flush nowMs
      have hloop : drainLoop process flush nowMs (drainFuel + 1) u =
          some ((u.hand index slot.packet).advance, .ok) := by
        rw [hround, if_neg hcond, if_neg (by simp [hstatus]), drain_eq, hempty]
      rw [drain_of_loop hloop]
      exact ⟨rfl, rfl, rfl, rfl, hgone, rfl, by simp [hstatus, hsequence, advance, hand]⟩
    · have hloop : drainLoop process flush nowMs 1 u =
          some (u.hand index slot.packet, process slot.packet) := by
        rw [hround, if_neg hcond, if_pos hstatus]
      rw [drain_of_loop hloop]
      exact ⟨rfl, rfl, rfl, rfl, hgone, rfl, by simp [hstatus, hsequence, hand]⟩

section

variable {packet : Bytes} (hused : u.slots.used = [])
  (hexpected : u.started = true → sequenceOf packet = u.expected) (nowMs : Nat)
  (process : Bytes → Status)
include hused hexpected nowMs process

theorem acceptPacket_expected :
    ∃ v : Receiver, u.acceptPacket packet nowMs process = v.drain process false nowMs ∧
      v.window = u.window ∧ v.jitterDelayMs = u.jitterDelayMs ∧ v.started = true ∧
      v.received = u.received ++ [packet] ∧ v.handed = u.handed ∧
      v.expected = sequenceOf packet ∧
      v.slots.used = [⟨sequenceOf packet, jitterReleaseAt nowMs u.jitterDelayMs, packet⟩] := by
  have hself : sequenceBefore (sequenceOf packet) (sequenceOf packet) = false := by
    simp [sequenceBefore]
  have hbefore : ((u.note packet).started && sequenceBefore (sequenceOf packet)
      (u.note packet).expected) = false := by
    cases hstarted : u.started with
    | false => simp [note, hstarted]
    | true => simp [note, hstarted, ← hexpected hstarted, hself]
  obtain ⟨w, hw, hfields⟩ : ∃ w, (u.note packet).beginAt (sequenceOf packet) = w ∧
      w.window = u.window ∧ w.jitterDelayMs = u.jitterDelayMs ∧ w.started = true ∧
      w.received = u.received ++ [packet] ∧ w.handed = u.handed ∧
      w.expected = sequenceOf packet ∧ w.slots = u.slots := by
    refine ⟨_, rfl, ?_⟩
    cases hstarted : u.started with
    | false => simp [beginAt, note, hstarted]
    | true => simp [beginAt, note, hstarted, hexpected hstarted]
  obtain ⟨hwindow, hdelay, hstarted, hreceived, hhanded, hseq, hslots⟩ := hfields
  have hfind : (w.reorderFind (sequenceOf packet)).isSome = false := by
    cases hfind : w.reorderFind (sequenceOf packet) with
    | none => rfl
    | some index =>
      obtain ⟨slot, hcell, -⟩ := reorderFind_some hfind
      have hmem := (Slots.used_put_none hcell).mem_iff.mpr List.mem_cons_self
      simp [hslots, hused] at hmem
  have hgap : w.closeGap (sequenceDistance w.expected (sequenceOf packet)).toNat = w := by
    rw [hseq, distance_self, closeGap]
  obtain ⟨index, hfree⟩ : ∃ index, w.reorderFreeSlot = some index := by
    cases hfree : w.reorderFreeSlot with
    | some index => exact ⟨index, rfl⟩
    | none =>
      have hfull := reorderFreeSlot_none hfree
      rw [hslots, hused] at hfull
      exact absurd hfull (by decide)
  have hperm := Slots.used_put_some
    ⟨sequenceOf packet, jitterReleaseAt nowMs w.jitterDelayMs, packet⟩ (reorderFreeSlot_some hfree)
  rw [hslots, hused, List.perm_singleton] at hperm
  refine ⟨w.store index ⟨sequenceOf packet, jitterReleaseAt nowMs w.jitterDelayMs, packet⟩, ?_,
    hwindow, hdelay, hstarted, hreceived, hhanded, hseq, ?_⟩
  · simp only [acceptPacket, hbefore, hw, hfind, hgap, hfree, Bool.false_eq_true, if_false]
  · rw [← hdelay, ← hperm, ← hslots]
    rfl

/-- A packet that arrives with a jitter delay waits for its release time. -/
def Delayed (u : Receiver) (nowMs : Nat) : Prop :=
  u.jitterDelayMs ≠ 0 ∧ nowMs < jitterReleaseAt nowMs u.jitterDelayMs

/-- `v` is `u` after a packet arrived at an empty buffer with the expected number. -/
structure Taken (u v : Receiver) (packet : Bytes) (nowMs : Nat) (process : Bytes → Status) :
    Prop where
  window : v.window = u.window
  delay : v.jitterDelayMs = u.jitterDelayMs
  started : v.started = true
  received : v.received = u.received ++ [packet]
  waits : u.Delayed nowMs → v.handed = u.handed ∧ v.expected = sequenceOf packet ∧
    v.slots.used = [⟨sequenceOf packet, jitterReleaseAt nowMs u.jitterDelayMs, packet⟩]
  passes : ¬ u.Delayed nowMs → v.handed = u.handed ++ [packet] ∧ v.slots.used = [] ∧
    v.expected = if process packet = .ok then sequenceOf packet + 1 else sequenceOf packet

theorem acceptPacket_taken :
    Taken u (u.acceptPacket packet nowMs process).1 packet nowMs process := by
  obtain ⟨v, haccept, hwindow, hdelay, hstarted, hreceived, hhanded, hseq, hslot⟩ :=
    acceptPacket_expected hused hexpected nowMs process
  obtain ⟨hheld, hsettled⟩ := drain_single hslot hseq.symm process false nowMs
  rw [haccept]
  by_cases hdelayed : u.Delayed nowMs
  · have hv := hheld ⟨rfl, by rw [hdelay]; exact hdelayed.1, hdelayed.2⟩
    rw [hv]
    exact ⟨hwindow, hdelay, hstarted, hreceived, fun _ => ⟨hhanded, hseq, hslot⟩,
      fun h => absurd hdelayed h⟩
  · have hv := hsettled (fun h => hdelayed ⟨hdelay ▸ h.2.1, h.2.2⟩)
    refine ⟨hv.window.trans hwindow, hv.delay.trans hdelay, hv.started.trans hstarted,
      hv.received.trans hreceived, fun h => absurd h hdelayed, fun _ => ?_⟩
    exact ⟨by rw [hv.handed, hhanded], hv.used, hv.expected⟩

end

end Single

/-- The event does not let one stream disturb another: a packet finds the buffer
empty and has the number that the connection expects next. -/
def Undisturbed (s : Receiver) : Event → Prop
  | .packet packet _ _ => s.slots.used = [] ∧ (s.started = true →
      sequenceOf packet = s.expected ∧ ∀ last ∈ s.handed.getLast?, sequenceOf last ≠ s.expected)
  | _ => True

/-- At most one packet waits; it has the expected number, and no packet of that
number was handed on just before. -/
structure AtMostOne (s : Receiver) : Prop where
  idle : s.started = false → s.handed = [] ∧ s.slots.used = []
  single : s.slots.used = [] ∨ ∃ slot, s.slots.used = [slot] ∧ slot.sequence = s.expected ∧
    ∀ last ∈ s.handed.getLast?, sequenceOf last ≠ s.expected

/-- `t` receives alone the stream `ssrc` of what `s` receives. -/
structure Mirrors (ssrc : UInt32) (s t : Receiver) : Prop where
  window : t.window = s.window
  delay : t.jitterDelayMs = s.jitterDelayMs
  started : t.started = true → s.started = true
  begun : t.started = true → t.received ≠ []
  idle : t.started = false → t.received = [] ∧ t.slots.used = []
  handed : t.handed = ofStream ssrc s.handed
  used : t.slots.used = s.slots.used.filter (fun slot => ssrcOf slot.packet == ssrc)
  waiting : ∀ slot ∈ t.slots.used, slot.sequence = t.expected ∧
    t.received.getLast? = some slot.packet ∧ sequenceOf slot.packet = slot.sequence
  expects : t.slots.used = [] → (∀ last ∈ s.handed.getLast?, sequenceOf last ≠ s.expected) →
    ∀ last ∈ t.received.getLast?, t.expected = sequenceOf last + 1

section Mirror

variable {ssrc : UInt32} {s t : Receiver} {packet : Bytes} {nowMs : Nat}
  {process : Bytes → Status}

/-- A packet of the stream arrives on both. -/
theorem Mirrors.own (h : Mirrors ssrc s t) (hown : ssrcOf packet = ssrc)
    (hundisturbed : s.Undisturbed (.packet packet nowMs process))
    (hnext : ∀ last ∈ t.received.getLast?, sequenceOf packet = sequenceOf last + 1) :
    Mirrors ssrc (s.acceptPacket packet nowMs process).1 (t.acceptPacket packet nowMs process).1 ∧
      (t.acceptPacket packet nowMs process).1.received = t.received ++ [packet] := by
  obtain ⟨hempty, hexpected⟩ := hundisturbed
  have hemptyT : t.slots.used = [] := by rw [h.used, hempty]; rfl
  have hexpectedT : t.started = true → sequenceOf packet = t.expected := by
    intro hstarted
    have hfresh := (hexpected (h.started hstarted)).2
    cases hlast : t.received.getLast? with
    | none => exact absurd (List.getLast?_eq_none_iff.mp hlast) (h.begun hstarted)
    | some last => rw [h.expects hemptyT hfresh last hlast, hnext last hlast]
  have hs := acceptPacket_taken hempty (fun hstarted => (hexpected hstarted).1) nowMs process
  have ht := acceptPacket_taken hemptyT hexpectedT nowMs process
  have hsame : t.Delayed nowMs ↔ s.Delayed nowMs := by rw [Delayed, Delayed, h.delay]
  have hlast : (t.acceptPacket packet nowMs process).1.received.getLast? = some packet := by
    rw [ht.received, List.getLast?_concat]
  by_cases hdelayed : s.Delayed nowMs
  · obtain ⟨hhandedS, -, husedS⟩ := hs.waits hdelayed
    obtain ⟨hhandedT, hexpT, husedT⟩ := ht.waits (hsame.mpr hdelayed)
    refine ⟨⟨?_, ?_, fun _ => hs.started, ?_, ?_, ?_, ?_, ?_, ?_⟩, ht.received⟩
    · rw [ht.window, hs.window, h.window]
    · rw [ht.delay, hs.delay, h.delay]
    · intro _
      simp [ht.received]
    · intro hnot
      exact absurd (ht.started.symm.trans hnot) (by simp)
    · rw [hhandedT, hhandedS, h.handed]
    · rw [husedT, husedS, h.delay]
      simp [hown]
    · intro slot hslot
      rw [husedT, List.mem_singleton] at hslot
      subst hslot
      exact ⟨hexpT.symm, hlast, rfl⟩
    · intro hnil
      rw [husedT] at hnil
      exact absurd hnil (by simp)
  · obtain ⟨hhandedS, husedS, hexpS⟩ := hs.passes hdelayed
    obtain ⟨hhandedT, husedT, hexpT⟩ := ht.passes (mt hsame.mp hdelayed)
    refine ⟨⟨?_, ?_, fun _ => hs.started, ?_, ?_, ?_, ?_, ?_, ?_⟩, ht.received⟩
    · rw [ht.window, hs.window, h.window]
    · rw [ht.delay, hs.delay, h.delay]
    · intro _
      simp [ht.received]
    · intro hnot
      exact absurd (ht.started.symm.trans hnot) (by simp)
    · rw [hhandedT, hhandedS, h.handed]
      simp [ofStream, hown]
    · rw [husedT, husedS]
      rfl
    · simp [husedT]
    · intro _ hfresh last hmem
      obtain rfl : packet = last := by simpa [hlast] using hmem
      have hnotFailed := hfresh packet (by rw [hhandedS, List.getLast?_concat]; rfl)
      rw [hexpS] at hnotFailed
      rw [hexpT]
      by_cases hok : process packet = .ok
      · rw [if_pos hok]
      · rw [if_neg hok] at hnotFailed
        exact absurd rfl hnotFailed

theorem Mirrors.other (h : Mirrors ssrc s t) (hother : ssrcOf packet ≠ ssrc)
    (hundisturbed : s.Undisturbed (.packet packet nowMs process)) :
    Mirrors ssrc (s.acceptPacket packet nowMs process).1 t := by
  obtain ⟨hempty, hexpected⟩ := hundisturbed
  have hemptyT : t.slots.used = [] := by rw [h.used, hempty]; rfl
  have hs := acceptPacket_taken hempty (fun hstarted => (hexpected hstarted).1) nowMs process
  have hexpects : ∀ last ∈ t.received.getLast?, t.expected = sequenceOf last + 1 := by
    cases hstarted : t.started with
    | true => exact h.expects hemptyT (hexpected (h.started hstarted)).2
    | false => simp [(h.idle hstarted).1]
  have hwindow : t.window = (s.acceptPacket packet nowMs process).1.window :=
    h.window.trans hs.window.symm
  have hdelay : t.jitterDelayMs = (s.acceptPacket packet nowMs process).1.jitterDelayMs :=
    h.delay.trans hs.delay.symm
  by_cases hdelayed : s.Delayed nowMs
  · obtain ⟨hhandedS, -, husedS⟩ := hs.waits hdelayed
    refine ⟨hwindow, hdelay, fun _ => hs.started, h.begun, h.idle, ?_, ?_, h.waiting,
      fun _ _ => hexpects⟩
    · rw [hhandedS, h.handed]
    · rw [hemptyT, husedS]
      simp [hother]
  · obtain ⟨hhandedS, husedS, -⟩ := hs.passes hdelayed
    refine ⟨hwindow, hdelay, fun _ => hs.started, h.begun, h.idle, ?_, ?_, h.waiting,
      fun _ _ => hexpects⟩
    · rw [hhandedS, h.handed]
      simp [ofStream, hother]
    · rw [hemptyT, husedS]
      rfl

/-- Both connections drain. -/
theorem Mirrors.drain (h : Mirrors ssrc s t) (hone : s.AtMostOne) (process : Bytes → Status)
    (flush : Bool) (nowMs : Nat) :
    Mirrors ssrc (s.drain process flush nowMs).1 (t.drain process flush nowMs).1 := by
  rcases hone.single with hempty | ⟨slot, hslot, hsequence, hfreshS⟩
  · have hemptyT : t.slots.used = [] := by rw [h.used, hempty]; rfl
    rw [drain_empty hempty, drain_empty hemptyT]
    exact h
  · obtain ⟨hheldS, hsettledS⟩ := drain_single hslot hsequence process flush nowMs
    by_cases hown : ssrcOf slot.packet = ssrc
    · have hslotT : t.slots.used = [slot] := by simp [h.used, hslot, hown]
      obtain ⟨hsequenceT, hlastT, hnumber⟩ := h.waiting slot (by simp [hslotT])
      obtain ⟨hheldT, hsettledT⟩ := drain_single hslotT hsequenceT process flush nowMs
      have hsame : t.Held slot flush nowMs ↔ s.Held slot flush nowMs := by
        rw [Held, Held, h.delay]
      by_cases hheld : s.Held slot flush nowMs
      · rw [hheldS hheld, hheldT (hsame.mpr hheld)]
        exact h
      · have hs := hsettledS hheld
        have ht := hsettledT (mt hsame.mp hheld)
        refine ⟨?_, ?_, ?_, ?_, ?_, ?_, ?_, ?_, ?_⟩
        · rw [ht.window, hs.window, h.window]
        · rw [ht.delay, hs.delay, h.delay]
        · rw [ht.started, hs.started]
          exact h.started
        · rw [ht.started, ht.received]
          exact h.begun
        · rw [ht.started, ht.received]
          exact fun hnot => ⟨(h.idle hnot).1, ht.used⟩
        · rw [ht.handed, hs.handed, h.handed]
          simp [ofStream, hown]
        · rw [ht.used, hs.used]
          rfl
        · simp [ht.used]
        · intro _ hfresh last hmem
          rw [ht.received, hlastT] at hmem
          obtain rfl : slot.packet = last := by simpa using hmem
          have hnotFailed := hfresh slot.packet (by rw [hs.handed, List.getLast?_concat]; rfl)
          rw [hs.expected] at hnotFailed
          rw [ht.expected, hnumber]
          by_cases hok : process slot.packet = .ok
          · rw [if_pos hok]
          · rw [if_neg hok] at hnotFailed
            exact absurd hnumber hnotFailed
    · have hemptyT : t.slots.used = [] := by simp [h.used, hslot, hown]
      rw [drain_empty hemptyT]
      by_cases hheld : s.Held slot flush nowMs
      · rw [hheldS hheld]
        exact h
      · have hs := hsettledS hheld
        refine ⟨h.window.trans hs.window.symm, h.delay.trans hs.delay.symm, ?_, h.begun, h.idle,
          ?_, ?_, h.waiting, fun hnil _ => h.expects hnil hfreshS⟩
        · rw [hs.started]
          exact h.started
        · rw [hs.handed, h.handed]
          simp [ofStream, hown]
        · rw [hemptyT, hs.used]
          rfl

theorem AtMostOne.accept (hone : s.AtMostOne)
    (hundisturbed : s.Undisturbed (.packet packet nowMs process)) :
    (s.acceptPacket packet nowMs process).1.AtMostOne := by
  obtain ⟨hempty, hexpected⟩ := hundisturbed
  have hs := acceptPacket_taken hempty (fun hstarted => (hexpected hstarted).1) nowMs process
  refine ⟨fun hnot => absurd (hs.started.symm.trans hnot) (by simp), ?_⟩
  by_cases hdelayed : s.Delayed nowMs
  · obtain ⟨hhandedS, hexpS, husedS⟩ := hs.waits hdelayed
    refine .inr ⟨_, husedS, hexpS.symm, ?_⟩
    rw [hhandedS, hexpS]
    cases hstarted : s.started with
    | true =>
      rw [(hexpected hstarted).1]
      exact (hexpected hstarted).2
    | false => simp [(hone.idle hstarted).1]
  · exact .inl (hs.passes hdelayed).2.1

theorem AtMostOne.drain (hone : s.AtMostOne) (process : Bytes → Status) (flush : Bool)
    (nowMs : Nat) :
    (s.drain process flush nowMs).1.AtMostOne := by
  rcases hone.single with hempty | ⟨slot, hslot, hsequence, hfresh⟩
  · rw [drain_empty hempty]
    exact hone
  · obtain ⟨hheld, hsettled⟩ := drain_single hslot hsequence process flush nowMs
    by_cases hdue : s.Held slot flush nowMs
    · rw [hheld hdue]
      exact hone
    · have hs := hsettled hdue
      refine ⟨?_, .inl hs.used⟩
      rw [hs.started]
      intro hnot
      exact absurd (hone.idle hnot).2 (by simp [hslot])

end Mirror

/-- The packets that arrive. -/
def packetsOf (events : List Event) : List Bytes := events.filterMap Event.packet?

@[simp] theorem packetsOf_cons (event : Event) (events : List Event) :
    packetsOf (event :: events) = event.packet?.toList ++ packetsOf events := by
  cases hpacket : event.packet? <;> simp [packetsOf, hpacket]

/-- Two streams with different SSRCs, each in order and without losses, from any
number on, in any interleaving. -/
structure Interleaved (a b : UInt32) (events : List Event) : Prop where
  distinct : a ≠ b
  admitted : ∀ packet ∈ packetsOf events,
    admits packet = .ok () ∧ (ssrcOf packet = a ∨ ssrcOf packet = b)
  inOrder : ∀ ssrc, (ofStream ssrc (packetsOf events)).IsChain
    (fun p q => sequenceOf q = sequenceOf p + 1)

theorem Interleaved.of_two {a b : UInt32} {events : List Event} (hdistinct : a ≠ b)
    (hadmitted : ∀ packet ∈ packetsOf events,
      admits packet = .ok () ∧ (ssrcOf packet = a ∨ ssrcOf packet = b))
    (ha : (ofStream a (packetsOf events)).IsChain (fun p q => sequenceOf q = sequenceOf p + 1))
    (hb : (ofStream b (packetsOf events)).IsChain (fun p q => sequenceOf q = sequenceOf p + 1)) :
    Interleaved a b events := by
  refine ⟨hdistinct, hadmitted, ?_⟩
  intro ssrc
  by_cases hssrcA : ssrc = a
  · rw [hssrcA]
    exact ha
  · by_cases hssrcB : ssrc = b
    · rw [hssrcB]
      exact hb
    · have hnil : ofStream ssrc (packetsOf events) = [] := by
        refine List.filter_eq_nil_iff.mpr ?_
        intro packet hpacket
        rcases (hadmitted packet hpacket).2 with heq | heq
        · simp [heq, Ne.symm hssrcA]
        · simp [heq, Ne.symm hssrcB]
      rw [hnil]
      exact List.isChain_nil

/-- What is handed on of the stream is what is handed on when it is received alone. -/
def Independent (window : Fin reorderQueueCap) (jitterDelayMs : Nat) (ssrc : UInt32)
    (events : List Event) : Prop :=
  ofStream ssrc (events.foldl next (start window jitterDelayMs)).handed =
    ((ownEvents ssrc events).foldl next (start window jitterDelayMs)).handed

section Runs

variable {ssrc : UInt32} {s t : Receiver} {events : List Event}

theorem start_mirrors (ssrc : UInt32) (window : Fin reorderQueueCap) (jitterDelayMs : Nat) :
    Mirrors ssrc (start window jitterDelayMs) (start window jitterDelayMs) := by
  constructor
  all_goals simp [start, ofStream]

theorem start_atMostOne (window : Fin reorderQueueCap) (jitterDelayMs : Nat) :
    (start window jitterDelayMs).AtMostOne := ⟨by simp [start], .inl (by simp [start])⟩

theorem next_packet {packet : Bytes} (hwindow : 0 < s.window.val)
    (hadmits : admits packet = .ok ()) (nowMs : Nat) (process : Bytes → Status) :
    s.next (.packet packet nowMs process) = (s.acceptPacket packet nowMs process).1 := by
  simp only [next, receiveRtpPacketAt, if_neg hwindow.ne', hadmits]

theorem tick_eq_drain (hidle : s.started = false → s.slots.used = []) (nowMs : Nat)
    (process : Bytes → Status) :
    s.next (.tick nowMs process) = (s.drain process false nowMs).1 := by
  simp only [next, tickReceiveJitter]
  cases hstarted : s.started with
  | true => rfl
  | false => rw [drain_empty (hidle hstarted)]; rfl

theorem flush_eq_drain (hidle : s.started = false → s.slots.used = [])
    (process : Bytes → Status) : s.next (.flush process) = (s.drain process true 0).1 := by
  simp only [next, flushReceiveReorder]
  cases hstarted : s.started with
  | true => rfl
  | false => rw [drain_empty (hidle hstarted)]; rfl

theorem drain_received (s : Receiver) (process : Bytes → Status) (flush : Bool) (nowMs : Nat) :
    (s.drain process flush nowMs).1.received = s.received :=
  drain_invariant (P := fun t => t.received = s.received) (fun _ _ _ ht _ _ => ht)
    (fun _ _ _ ht _ _ => ht) (fun _ ht _ _ => ht) rfl

/-- **An undisturbed run of the connection is mirrored by the run of each stream
alone**, by induction over the events. -/
theorem Mirrors.run (h : Mirrors ssrc s t) (hone : s.AtMostOne) (hwindow : 0 < s.window.val)
    (hadmits : ∀ packet ∈ packetsOf events, admits packet = .ok ())
    (horder : (t.received ++ ofStream ssrc (packetsOf events)).IsChain
      (fun p q => sequenceOf q = sequenceOf p + 1))
    (hpermitted : Machine.Permitted next Undisturbed s events) :
    Mirrors ssrc (events.foldl next s) ((ownEvents ssrc events).foldl next t) ∧
      ((ownEvents ssrc events).foldl next t).received =
        t.received ++ ofStream ssrc (packetsOf events) := by
  induction events generalizing s t with
  | nil => exact ⟨h, by simp [ownEvents, packetsOf, ofStream]⟩
  | cons event events ih =>
    obtain ⟨hevent, hrest⟩ := hpermitted
    have hwindow' : 0 < (s.next event).window.val := by rw [next_window]; exact hwindow
    have hidleS : s.started = false → s.slots.used = [] := fun hnot => (hone.idle hnot).2
    have hidleT : t.started = false → t.slots.used = [] := fun hnot => (h.idle hnot).2
    cases event with
    | packet packet nowMs process =>
      simp only [packetsOf_cons, Event.packet?, Option.toList_some, List.cons_append,
        List.nil_append, List.forall_mem_cons] at hadmits horder
      obtain ⟨hadmitted, hadmits⟩ := hadmits
      have hnextS := next_packet hwindow hadmitted nowMs process
      rw [List.foldl_cons]
      rw [hnextS] at hrest hwindow' ⊢
      have honeS := hone.accept hevent
      by_cases hown : ssrcOf packet = ssrc
      · have hnextT := next_packet (h.window ▸ hwindow) hadmitted nowMs process
        have hownEvents : ownEvents ssrc (.packet packet nowMs process :: events) =
            .packet packet nowMs process :: ownEvents ssrc events := by
          simp [ownEvents, Event.isOf, Event.packet?, hown]
        have hsplit : ofStream ssrc (packet :: packetsOf events) =
            packet :: ofStream ssrc (packetsOf events) := by
          simp [ofStream, hown]
        rw [hsplit] at horder
        rw [hownEvents, List.foldl_cons, hnextT]
        have hlast : ∀ last ∈ t.received.getLast?, sequenceOf packet = sequenceOf last + 1 :=
          fun last hmem => (List.isChain_append.mp horder).2.2 last hmem packet (by simp)
        obtain ⟨hmirrors, hreceived⟩ := h.own hown hevent hlast
        obtain ⟨hrun, hall⟩ := ih hmirrors honeS hwindow' hadmits
          (by rw [hreceived]; simpa using horder) hrest
        refine ⟨hrun, ?_⟩
        rw [hall, hreceived, packetsOf_cons]
        simp [Event.packet?, hsplit]
      · have hownEvents : ownEvents ssrc (.packet packet nowMs process :: events) =
            ownEvents ssrc events := by
          simp [ownEvents, Event.isOf, Event.packet?, hown]
        have hsplit : ofStream ssrc (packet :: packetsOf events) =
            ofStream ssrc (packetsOf events) := by
          simp [ofStream, hown]
        rw [hsplit] at horder
        rw [hownEvents, packetsOf_cons]
        simp only [Event.packet?, Option.toList_some, List.cons_append, List.nil_append, hsplit]
        exact ih (h.other hown hevent) honeS hwindow' hadmits horder hrest
    | tick nowMs process =>
      have hnextS := tick_eq_drain hidleS nowMs process
      have hnextT := tick_eq_drain hidleT nowMs process
      have hreceived := drain_received t process false nowMs
      rw [← hnextT] at hreceived
      have hmirrors := h.drain hone process false nowMs
      have honeS := hone.drain process false nowMs
      rw [← hnextS, ← hnextT] at hmirrors
      rw [← hnextS] at honeS
      obtain ⟨hrun, hall⟩ := ih hmirrors honeS hwindow' hadmits
        (by rw [hreceived]; exact horder) hrest
      exact ⟨hrun, by rw [← hreceived]; exact hall⟩
    | flush process =>
      have hnextS := flush_eq_drain hidleS process
      have hnextT := flush_eq_drain hidleT process
      have hreceived := drain_received t process true 0
      rw [← hnextT] at hreceived
      have hmirrors := h.drain hone process true 0
      have honeS := hone.drain process true 0
      rw [← hnextS, ← hnextT] at hmirrors
      rw [← hnextS] at honeS
      obtain ⟨hrun, hall⟩ := ih hmirrors honeS hwindow' hadmits
        (by rw [hreceived]; exact horder) hrest
      exact ⟨hrun, by rw [← hreceived]; exact hall⟩
    | setJitterDelay delayMs =>
      refine ih ?_ ?_ hwindow' hadmits horder hrest
      · exact ⟨h.window, rfl, h.started, h.begun, h.idle, h.handed, h.used, h.waiting, h.expects⟩
      · exact ⟨hone.idle, hone.single⟩

/-- An arrival whose processing succeeds. -/
def Plain (event : Event) : Prop :=
  ∃ packet nowMs process, event = .packet packet nowMs process ∧ process packet = .ok

/-- Nothing waits, and the number of the last packet handed on was gone past. -/
structure Quiet (s : Receiver) : Prop where
  delay : s.jitterDelayMs = 0
  used : s.slots.used = []
  fresh : ∀ last ∈ s.handed.getLast?, sequenceOf last ≠ s.expected

theorem Quiet.accept (h : s.Quiet) {packet : Bytes} {nowMs : Nat} {process : Bytes → Status}
    (hexpected : s.started = true → sequenceOf packet = s.expected)
    (hok : process packet = .ok) :
    (s.acceptPacket packet nowMs process).1.Quiet ∧
      (s.acceptPacket packet nowMs process).1.handed = s.handed ++ [packet] := by
  have hs := acceptPacket_taken h.used hexpected nowMs process
  obtain ⟨hhanded, hused, hexp⟩ := hs.passes (fun hdelayed => hdelayed.1 h.delay)
  refine ⟨⟨hs.delay.trans h.delay, hused, ?_⟩, hhanded⟩
  intro last hmem
  rw [hhanded, List.getLast?_concat] at hmem
  obtain rfl : packet = last := by simpa using hmem
  rw [hexp, if_pos hok]
  intro heq
  have hone := distance_succ (sequenceOf packet)
  rw [← heq, distance_self] at hone
  exact absurd hone (by decide)

theorem Quiet.acceptUnexpected (h : s.Quiet) (hwindow : 0 < s.window.val) {packet : Bytes}
    (nowMs : Nat) (process : Bytes → Status) (hstarted : s.started = true)
    (hother : sequenceOf packet ≠ s.expected) :
    (s.acceptPacket packet nowMs process).1.handed = s.handed := by
  have hnote : (s.note packet).started = true := hstarted
  have hbegin : (s.note packet).beginAt (sequenceOf packet) = s.note packet := by
    rw [beginAt, if_pos hnote]
  unfold acceptPacket
  simp only [hnote, Bool.true_and, hbegin]
  split
  · rfl
  · split
    · rfl
    · obtain ⟨hmoved, hleft⟩ := closeGap_expected (sequenceOf packet) _ (s.note packet) rfl
      obtain ⟨expected, packetsLost, hgap⟩ := closeGap_eq (s.note packet)
        (sequenceDistance (s.note packet).expected (sequenceOf packet)).toNat
      simp only [hgap] at hmoved hleft ⊢
      replace hmoved : (sequenceDistance s.expected expected).toNat =
        (sequenceDistance s.expected (sequenceOf packet)).toNat - s.window.val := hmoved
      have hne : expected ≠ sequenceOf packet := by
        intro heq
        have hpos : (sequenceDistance s.expected (sequenceOf packet)).toNat ≠ 0 :=
          fun hzero => hother ((distance_eq_zero_iff _ _).mp hzero).symm
        rw [heq] at hmoved
        omega
      split
      · rfl
      · next index hfree =>
        let slot : ReorderSlot :=
          ⟨sequenceOf packet, jitterReleaseAt nowMs s.jitterDelayMs, packet⟩
        have hcell : s.slots.cells[index]? = some none := reorderFreeSlot_some hfree
        have hperm := Slots.used_put_some slot hcell
        rw [h.used, List.perm_singleton] at hperm
        let stored : Receiver := { s.note packet with expected, packetsLost }.store index slot
        have hstoredUsed : stored.slots.used = [slot] := hperm
        have hstoredOther : slot.sequence ≠ stored.expected := hne.symm
        have hstoredDelay : stored.jitterDelayMs = 0 := h.delay
        have hstoredWindow : 0 < stored.window.val := hwindow
        have hwaits : stored.drain process false nowMs = (stored, .ok) :=
          drain_other hstoredUsed hstoredOther hstoredDelay hstoredWindow process nowMs
        exact congrArg (fun result => result.1.handed) hwaits

theorem run_window (s : Receiver) (events : List Event) :
    (events.foldl next s).window = s.window := by
  induction events generalizing s with
  | nil => rfl
  | cons event events ih => rw [List.foldl_cons, ih, next_window]

theorem isChain_ofStream_initial {done : List Event} (hdone : done <+: events)
    (h : (ofStream ssrc (packetsOf events)).IsChain (fun p q => sequenceOf q = sequenceOf p + 1)) :
    (ofStream ssrc (packetsOf done)).IsChain (fun p q => sequenceOf q = sequenceOf p + 1) := by
  obtain ⟨rest, rfl⟩ := hdone
  rw [packetsOf, List.filterMap_append, ofStream, List.filter_append] at h
  exact (List.isChain_append.mp h).1

theorem mirrors_of_undisturbed {window : Fin reorderQueueCap} (hwindow : 0 < window.val)
    (jitterDelayMs : Nat) {a b : UInt32} (h : Interleaved a b events) {done : List Event}
    (hdone : done <+: events)
    (hpermitted : Machine.Permitted next Undisturbed (start window jitterDelayMs) done)
    (ssrc : UInt32) :
    Mirrors ssrc (done.foldl next (start window jitterDelayMs))
        ((ownEvents ssrc done).foldl next (start window jitterDelayMs)) ∧
      ((ownEvents ssrc done).foldl next (start window jitterDelayMs)).received =
        ofStream ssrc (packetsOf done) := by
  have hadmits : ∀ packet ∈ packetsOf done, admits packet = .ok () := by
    intro packet hpacket
    obtain ⟨rest, rfl⟩ := hdone
    refine (h.admitted packet ?_).1
    rw [packetsOf, List.filterMap_append]
    exact List.mem_append_left _ hpacket
  exact Mirrors.run (start_mirrors ssrc window jitterDelayMs)
    (start_atMostOne window jitterDelayMs) hwindow hadmits
    (isChain_ofStream_initial hdone (h.inOrder ssrc)) hpermitted

theorem Quiet.run (h : s.Quiet) (hwindow : 0 < s.window.val)
    (hadmits : ∀ packet ∈ packetsOf events, admits packet = .ok ())
    (hplain : ∀ event ∈ events, Plain event)
    (hpermitted : Machine.Permitted next Undisturbed s events) :
    (events.foldl next s).Quiet := by
  induction events generalizing s with
  | nil => exact h
  | cons event events ih =>
    obtain ⟨hevent, hrest⟩ := hpermitted
    obtain ⟨packet, nowMs, process, rfl, hok⟩ := hplain event (by simp)
    simp only [packetsOf_cons, Event.packet?, Option.toList_some, List.cons_append,
      List.nil_append, List.forall_mem_cons] at hadmits
    have hnext := next_packet hwindow hadmits.1 nowMs process
    have hwindow' : 0 < (s.next (.packet packet nowMs process)).window.val := by
      rw [next_window]
      exact hwindow
    refine ih ?_ hwindow' hadmits.2
      (fun event hmem => hplain event (List.mem_cons_of_mem _ hmem)) hrest
    rw [hnext]
    exact (h.accept (fun hstarted => (hevent.2 hstarted).1) hok).1

theorem Quiet.undisturbed (h : s.Quiet) (hwindow : 0 < s.window.val) {packet : Bytes}
    {nowMs : Nat} {process : Bytes → Status}
    (hmirrors : Mirrors (ssrcOf packet) s t)
    (hlast : ∀ last ∈ t.received.getLast?, sequenceOf packet = sequenceOf last + 1)
    (hsame : ofStream (ssrcOf packet) (s.acceptPacket packet nowMs process).1.handed =
      (t.acceptPacket packet nowMs process).1.handed) :
    s.Undisturbed (.packet packet nowMs process) := by
  refine ⟨h.used, fun hstarted => ⟨?_, h.fresh⟩⟩
  by_contra hother
  rw [h.acceptUnexpected hwindow nowMs process hstarted hother, ← hmirrors.handed] at hsame
  have hemptyT : t.slots.used = [] := by rw [hmirrors.used, h.used]; rfl
  have hexpectedT : t.started = true → sequenceOf packet = t.expected := by
    intro hstartedT
    cases hreceived : t.received.getLast? with
    | none => exact absurd (List.getLast?_eq_none_iff.mp hreceived) (hmirrors.begun hstartedT)
    | some last => rw [hmirrors.expects hemptyT h.fresh last hreceived, hlast last hreceived]
  have ht := acceptPacket_taken hemptyT hexpectedT nowMs process
  have hdelayT : t.jitterDelayMs = 0 := hmirrors.delay.trans h.delay
  have hhanded := (ht.passes (fun hdelayed => hdelayed.1 hdelayT)).1
  have hlength := congrArg List.length (hsame.trans hhanded)
  simp at hlength

/-- **The streams do not disturb each other when every packet finds the buffer
empty and has the number that the connection expects; and for packets that are
handed on as they come, without a jitter delay, only then.** -/
theorem streams_independent {window : Fin reorderQueueCap} (hwindow : 0 < window.val)
    (jitterDelayMs : Nat) {a b : UInt32} {events : List Event} (h : Interleaved a b events) :
    (Machine.Permitted next Undisturbed (start window jitterDelayMs) events →
      ∀ done, done <+: events → ∀ ssrc, ssrc = a ∨ ssrc = b →
        Independent window jitterDelayMs ssrc done) ∧
    (jitterDelayMs = 0 → (∀ event ∈ events, Plain event) →
      (∀ done, done <+: events → ∀ ssrc, ssrc = a ∨ ssrc = b →
        Independent window jitterDelayMs ssrc done) →
      Machine.Permitted next Undisturbed (start window jitterDelayMs) events) := by
  constructor
  · intro hpermitted done hdone ssrc _
    have hdonePermitted : Machine.Permitted next Undisturbed (start window jitterDelayMs) done := by
      obtain ⟨rest, rfl⟩ := hdone
      exact (Machine.permitted_append.mp hpermitted).1
    exact (mirrors_of_undisturbed hwindow jitterDelayMs h hdone hdonePermitted ssrc).1.handed.symm
  · intro hdelay hplain hall
    -- by induction on the events so far, the next one being the only suspect
    have hprefixes : ∀ done, done <+: events →
        Machine.Permitted next Undisturbed (start window jitterDelayMs) done := by
      intro done
      induction done using List.reverseRecOn with
      | nil => exact fun _ => trivial
      | append_singleton done event ih =>
        intro hdone
        have hbefore : done <+: events := (List.prefix_append done [event]).trans hdone
        have hpermitted := ih hbefore
        refine Machine.permitted_append.mpr ⟨hpermitted, ?_, trivial⟩
        have hmem : event ∈ events := hdone.subset (by simp)
        obtain ⟨packet, nowMs, process, rfl, hok⟩ := hplain event hmem
        have hpacket : packet ∈ packetsOf events :=
          List.mem_filterMap.mpr ⟨_, hmem, rfl⟩
        obtain ⟨hadmitted, hstream⟩ := h.admitted packet hpacket
        have hwindow' : 0 < (done.foldl next (start window jitterDelayMs)).window.val := by
          rw [run_window]
          exact hwindow
        have hadmits : ∀ packet ∈ packetsOf done, admits packet = .ok () :=
          fun packet hmem => (h.admitted packet ((hbefore.filterMap _).subset hmem)).1
        have hquiet : (done.foldl next (start window jitterDelayMs)).Quiet :=
          Quiet.run ⟨hdelay, by simp [start], by simp [start]⟩ hwindow hadmits
            (fun event hmem => hplain event (hbefore.subset hmem)) hpermitted
        obtain ⟨hmirrors, hreceived⟩ :=
          mirrors_of_undisturbed hwindow jitterDelayMs h hbefore hpermitted (ssrcOf packet)
        have hwindowT : 0 < ((ownEvents (ssrcOf packet) done).foldl next
            (start window jitterDelayMs)).window.val := by
          rw [run_window]
          exact hwindow
        refine hquiet.undisturbed hwindow' hmirrors ?_ ?_
        · -- the packet comes next in its own stream
          intro last hlast
          have horder := isChain_ofStream_initial hdone (h.inOrder (ssrcOf packet))
          have hsplit : ofStream (ssrcOf packet) (packetsOf (done ++
              [.packet packet nowMs process])) =
              ofStream (ssrcOf packet) (packetsOf done) ++ [packet] := by
            simp [packetsOf, ofStream, Event.packet?]
          rw [hsplit] at horder
          rw [hreceived] at hlast
          exact (List.isChain_append.mp horder).2.2 last hlast packet (by simp)
        · have hindependent := hall (done ++ [.packet packet nowMs process]) hdone
            (ssrcOf packet) hstream
          have hown : ownEvents (ssrcOf packet) (done ++ [.packet packet nowMs process]) =
              ownEvents (ssrcOf packet) done ++ [.packet packet nowMs process] := by
            simp [ownEvents, Event.isOf, Event.packet?]
          unfold Independent at hindependent
          rw [hown, List.foldl_append, List.foldl_append] at hindependent
          simp only [List.foldl_cons, List.foldl_nil] at hindependent
          rw [next_packet hwindow' hadmitted, next_packet hwindowT hadmitted] at hindependent
          exact hindependent
    exact hprefixes events (List.prefix_refl events)

/-- The arrival of a packet of a stream without payload, with processing that
succeeds. -/
def speech (ssrc : UInt8) (sequence : UInt16) : Event :=
  .packet [0x80, 0x78, (sequence >>> 8).toUInt8, sequence.toUInt8, 0, 0, 0, 0, 0, 0, 0, ssrc] 0
    (fun _ => .ok)

/-- One speaker after another, whose numbers happen to go on: the streams are
handed on as if each were alone. -/
theorem independent_in_turn :
    Interleaved 1 2 [speech 1 10, speech 1 11, speech 2 12] ∧
      Independent ⟨2, by decide⟩ 0 2 [speech 1 10, speech 1 11, speech 2 12] := by
  have hinterleaved : Interleaved 1 2 [speech 1 10, speech 1 11, speech 2 12] :=
    .of_two (by decide) (by decide) (by decide) (by decide)
  exact ⟨hinterleaved, (streams_independent (by decide) 0 hinterleaved).1 (by
    simp only [Machine.Permitted, Undisturbed, speech]
    decide) _ (List.prefix_refl _) 2 (by decide)⟩

/-- The first speaker starts at 1000 and the second at 10: the packet of the second
is dropped as late. -/
theorem second_speaker_dropped :
    Interleaved 1 2 [speech 1 1000, speech 2 10] ∧
      ¬ Independent ⟨2, by decide⟩ 0 2 [speech 1 1000, speech 2 10] :=
  ⟨.of_two (by decide) (by decide) (by decide) (by decide), by unfold Independent; decide⟩

end Runs

end Receiver

end Dcc.Voice
