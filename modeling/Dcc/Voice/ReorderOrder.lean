import Mathlib.Data.List.Chain
import Mathlib.Data.List.Nodup
import Mathlib.Data.List.Perm.Subperm
import Dcc.Voice.Reorder
import Dcc.Lib.Reach

/-!
# What the reorder buffer hands on, and in which order

Every packet that arrives is handed to processing, waits in a slot or is counted
as dropped (`Accounted`, in every run).  The packets handed on follow each other
on the circle of sequence numbers as long as two things do not happen
(`Orderly`):

* an arrival moves the window past a packet that waits in a slot (the gap loop
  of the receive path counts numbers as lost without looking at the slots);
* a packet arrives with the expected number after a packet of that number was
  handed on and its processing failed (the number is not gone past then).

The invariant behind it is `InOrder`: the slots are within the window from the
expected number, and the expected number stands between the last packet handed
on and a waiting one.

* `delivered_of_reach` — every state of a run of orderly events;
* `stale_slot` — a run in which an arrival passes over a waiting packet.
-/

namespace Dcc.Voice

/-- The number of a packet that may be handed on after one with number `a`:
ahead of it, by at most half the circle. -/
def Follows (a b : UInt16) : Prop :=
  1 ≤ (sequenceDistance a b).toNat ∧ (sequenceDistance a b).toNat ≤ 2 ^ 15

namespace Receiver

/-- Where the received packets are. -/
structure Accounted (s : Receiver) : Prop where
  stored : ∀ slot ∈ s.slots.used, slot.sequence = sequenceOf slot.packet
  total : s.received.Perm (s.handed ++ s.slots.used.map ReorderSlot.packet ++ s.dropped)
  counted : s.packetsDropped = min uint32Max s.dropped.length

section Accounting

variable {s : Receiver} {index : Nat} {slot : ReorderSlot} {packet : Bytes}

theorem Accounted.hand (h : s.Accounted) (hcell : s.slots.cells[index]? = some (some slot)) :
    (s.hand index slot.packet).Accounted := by
  have hperm := Slots.used_put_none hcell
  refine ⟨?_, ?_, h.counted⟩
  · intro other hother
    exact h.stored other (hperm.mem_iff.mpr (List.mem_cons_of_mem _ hother))
  · refine h.total.trans (List.Perm.append_right _ ?_)
    show (s.handed ++ s.slots.used.map ReorderSlot.packet).Perm
      (s.handed ++ [slot.packet] ++ (s.slots.put index none).used.map ReorderSlot.packet)
    rw [List.append_assoc]
    exact (hperm.map ReorderSlot.packet).append_left _

theorem Accounted.drop (h : s.Accounted) (packet : Bytes) :
    ((s.note packet).drop packet).Accounted := by
  refine ⟨h.stored, ?_, ?_⟩
  · show (s.received ++ [packet]).Perm
      (s.handed ++ s.slots.used.map ReorderSlot.packet ++ (s.dropped ++ [packet]))
    rw [← List.append_assoc]
    exact h.total.append_right _
  · show u32SaturatingInc s.packetsDropped = min uint32Max (s.dropped ++ [packet]).length
    rw [u32SaturatingInc, h.counted, List.length_append, List.length_singleton]
    split
    · omega
    · omega

theorem Accounted.store (h : s.Accounted) (hcell : s.slots.cells[index]? = some none)
    (hsequence : slot.sequence = sequenceOf slot.packet) :
    ((s.note slot.packet).store index slot).Accounted := by
  have hperm := Slots.used_put_some slot hcell
  refine ⟨?_, ?_, h.counted⟩
  · intro other hother
    rcases List.mem_cons.mp (hperm.mem_iff.mp hother) with rfl | hold
    · exact hsequence
    · exact h.stored other hold
  · show (s.received ++ [slot.packet]).Perm
      (s.handed ++ (s.slots.put index (some slot)).used.map ReorderSlot.packet ++ s.dropped)
    have hfront : (s.received ++ [slot.packet]).Perm
        (slot.packet :: (s.handed ++ s.slots.used.map ReorderSlot.packet ++ s.dropped)) :=
      (List.perm_append_singleton _ _).trans (h.total.cons _)
    have hinside : (slot.packet :: (s.handed ++ s.slots.used.map ReorderSlot.packet ++
        s.dropped)).Perm
        (s.handed ++ (slot.packet :: s.slots.used.map ReorderSlot.packet) ++ s.dropped) := by
      simpa using List.perm_middle.symm
    exact (hfront.trans hinside).trans
      (((hperm.map ReorderSlot.packet).symm.append_left _).append_right _)

end Accounting

/-- The packets handed on follow each other, and what waits can still be handed
on in order. -/
structure InOrder (s : Receiver) : Prop extends Accounted s where
  idle : s.started = false → s.slots.used = [] ∧ s.handed = []
  near : ∀ slot ∈ s.slots.used, (sequenceDistance s.expected slot.sequence).toNat ≤ s.window.val
  distinct : (s.slots.used.map ReorderSlot.sequence).Nodup
  increasing : s.handed.IsChain (fun a b => Follows (sequenceOf a) (sequenceOf b))
  /-- Nothing waits: the expected number is that of the last packet (its
  processing failed) or the one after it. -/
  empty : ∀ last ∈ s.handed.getLast?, s.slots.used = [] →
    (sequenceDistance (sequenceOf last) s.expected).toNat ≤ 1
  /-- Something waits: the expected number is between the last packet and it. -/
  between : ∀ last ∈ s.handed.getLast?, s.slots.used ≠ [] → ∃ slot ∈ s.slots.used,
      (sequenceDistance (sequenceOf last) slot.sequence).toNat ≤ 2 ^ 15 ∧
      (sequenceDistance (sequenceOf last) s.expected).toNat ≤
        (sequenceDistance (sequenceOf last) slot.sequence).toNat
  /-- After a failure no packet of the same number waits. -/
  fresh : ∀ last ∈ s.handed.getLast?, sequenceOf last = s.expected →
    ∀ slot ∈ s.slots.used, slot.sequence ≠ s.expected

theorem start_inOrder (window : Fin reorderQueueCap) (jitterDelayMs : Nat) :
    (start window jitterDelayMs).InOrder := by
  constructor
  · exact ⟨by simp [start], by simp [start], by simp [start]⟩
  all_goals simp [start]

section Rounds

variable {s : Receiver} {index : Nat} {slot : ReorderSlot}

section

variable (h : s.InOrder) (hcell : s.slots.cells[index]? = some (some slot))
include h hcell

theorem InOrder.other_ne {other : ReorderSlot} (hother : other ∈ (s.slots.put index none).used) :
    other.sequence ≠ slot.sequence := by
  have hperm := (Slots.used_put_none hcell).map ReorderSlot.sequence
  have hnodup := hperm.nodup_iff.mp h.distinct
  intro heq
  refine (List.nodup_cons.mp hnodup).1 ?_
  rw [← heq]
  exact List.mem_map_of_mem hother

theorem InOrder.increasing_hand (hsequence : slot.sequence = s.expected) :
    (s.handed ++ [slot.packet]).IsChain (fun a b => Follows (sequenceOf a) (sequenceOf b)) := by
  have hslot : slot ∈ s.slots.used :=
    (Slots.used_put_none hcell).mem_iff.mpr (by simp)
  have hnumber : sequenceOf slot.packet = s.expected := (h.stored slot hslot).symm.trans hsequence
  refine List.isChain_append.mpr ⟨h.increasing, List.isChain_singleton _, ?_⟩
  intro last hlast packet hpacket
  obtain rfl : slot.packet = packet := by simpa using hpacket
  rw [hnumber]
  obtain ⟨other, -, hhalf, hbetween⟩ := h.between last hlast (List.ne_nil_of_mem hslot)
  refine ⟨?_, by omega⟩
  -- at distance zero the number was handed on before, and no slot has it
  by_contra hzero
  have heq := (distance_eq_zero_iff (sequenceOf last) s.expected).mp (by omega)
  exact h.fresh last hlast heq slot hslot hsequence

theorem InOrder.hand (hsequence : slot.sequence = s.expected) :
    (s.hand index slot.packet).InOrder := by
  have hperm := Slots.used_put_none hcell
  have hslot : slot ∈ s.slots.used := hperm.mem_iff.mpr (by simp)
  have hnumber : sequenceOf slot.packet = s.expected := (h.stored slot hslot).symm.trans hsequence
  have hmem : ∀ other ∈ (s.hand index slot.packet).slots.used, other ∈ s.slots.used :=
    fun other hother => hperm.mem_iff.mpr (List.mem_cons_of_mem _ hother)
  have hlast : ∀ last ∈ (s.hand index slot.packet).handed.getLast?, last = slot.packet := by
    intro last hlast
    simpa [Receiver.hand, eq_comm] using hlast
  refine ⟨h.toAccounted.hand hcell, ?_, ?_, ?_, h.increasing_hand hcell hsequence, ?_, ?_, ?_⟩
  · intro hstarted
    exact absurd (h.idle hstarted).1 (List.ne_nil_of_mem hslot)
  · exact fun other hother => h.near other (hmem other hother)
  · exact (List.nodup_cons.mp ((hperm.map _).nodup_iff.mp h.distinct)).2
  · intro last hmemLast _
    rw [hlast last hmemLast, hnumber]
    simp [Receiver.hand]
  · intro last hmemLast hne
    obtain ⟨other, hother⟩ := List.exists_mem_of_ne_nil _ hne
    have hnear := h.near other (hmem other hother)
    have hwindow := s.window.isLt
    simp only [reorderQueueCap] at hwindow
    refine ⟨other, hother, ?_, ?_⟩
    · rw [hlast last hmemLast, hnumber]
      omega
    · rw [hlast last hmemLast, hnumber]
      simp [Receiver.hand]
  · intro last hmemLast _ other hother heq
    exact h.other_ne hcell hother (heq.trans hsequence.symm)

theorem InOrder.hand_advance (hsequence : slot.sequence = s.expected) :
    (s.hand index slot.packet).advance.InOrder := by
  have hperm := Slots.used_put_none hcell
  have hslot : slot ∈ s.slots.used := hperm.mem_iff.mpr (by simp)
  have hnumber : sequenceOf slot.packet = s.expected := (h.stored slot hslot).symm.trans hsequence
  have hmem : ∀ other ∈ (s.slots.put index none).used, other ∈ s.slots.used :=
    fun other hother => hperm.mem_iff.mpr (List.mem_cons_of_mem _ hother)
  have hlast : ∀ last ∈ (s.hand index slot.packet).advance.handed.getLast?, last = slot.packet := by
    intro last hlast
    simpa [Receiver.hand, Receiver.advance, eq_comm] using hlast
  have hcloser : ∀ other ∈ (s.slots.put index none).used,
      (sequenceDistance (s.expected + 1) other.sequence).toNat + 1 =
        (sequenceDistance s.expected other.sequence).toNat := by
    intro other hother
    exact distance_succ_left _ _ (fun heq => h.other_ne hcell hother (heq.symm.trans hsequence.symm))
  have haccounted : (s.hand index slot.packet).advance.Accounted :=
    ⟨(h.toAccounted.hand hcell).stored, (h.toAccounted.hand hcell).total, h.counted⟩
  refine ⟨haccounted, ?_, ?_, ?_, h.increasing_hand hcell hsequence, ?_, ?_, ?_⟩
  · intro hstarted
    exact absurd (h.idle hstarted).1 (List.ne_nil_of_mem hslot)
  · intro other hother
    have hnear := h.near other (hmem other hother)
    have hstep := hcloser other hother
    show (sequenceDistance (s.expected + 1) other.sequence).toNat ≤ s.window.val
    omega
  · exact (List.nodup_cons.mp ((hperm.map _).nodup_iff.mp h.distinct)).2
  · intro last hmemLast _
    rw [hlast last hmemLast, hnumber]
    exact (distance_succ s.expected).le
  · intro last hmemLast hne
    obtain ⟨other, hother⟩ := List.exists_mem_of_ne_nil _ hne
    have hnear := h.near other (hmem other hother)
    have hstep := hcloser other hother
    have hwindow := s.window.isLt
    simp only [reorderQueueCap] at hwindow
    refine ⟨other, hother, ?_, ?_⟩
    · rw [hlast last hmemLast, hnumber]
      omega
    · rw [hlast last hmemLast, hnumber]
      show (sequenceDistance s.expected (s.expected + 1)).toNat ≤ _
      rw [distance_succ]
      omega
  · intro last hmemLast heq
    rw [hlast last hmemLast, hnumber] at heq
    have hzero := (distance_eq_zero_iff s.expected (s.expected + 1)).mpr heq
    rw [distance_succ] at hzero
    exact absurd hzero (by decide)

end

theorem InOrder.skip (h : s.InOrder) (hused : s.slots.used ≠ [])
    (hnone : ∀ slot ∈ s.slots.used, slot.sequence ≠ s.expected) : s.skip.InOrder := by
  have hcloser : ∀ slot ∈ s.slots.used,
      (sequenceDistance (s.expected + 1) slot.sequence).toNat + 1 =
        (sequenceDistance s.expected slot.sequence).toNat :=
    fun slot hslot => distance_succ_left _ _ (fun heq => hnone slot hslot heq.symm)
  have hahead : ∀ last ∈ s.handed.getLast?, ∃ slot ∈ s.slots.used,
      (sequenceDistance (sequenceOf last) slot.sequence).toNat ≤ 2 ^ 15 ∧
      (sequenceDistance (sequenceOf last) (s.expected + 1)).toNat =
        (sequenceDistance (sequenceOf last) s.expected).toNat + 1 ∧
      (sequenceDistance (sequenceOf last) (s.expected + 1)).toNat ≤
        (sequenceDistance (sequenceOf last) slot.sequence).toNat := by
    intro last hlast
    obtain ⟨slot, hslot, hhalf, hbetween⟩ := h.between last hlast hused
    have hstep := hcloser slot hslot
    have htrans := distance_trans (sequenceOf last) s.expected slot.sequence
    have htrans' := distance_trans (sequenceOf last) s.expected (s.expected + 1)
    have hlt := distance_lt s.expected slot.sequence
    rw [distance_succ] at htrans'
    refine ⟨slot, hslot, hhalf, ?_, ?_⟩
    · omega
    · omega
  refine ⟨⟨h.stored, h.total, h.counted⟩, h.idle, ?_, h.distinct, h.increasing, ?_, ?_, ?_⟩
  · intro slot hslot
    have hnear := h.near slot hslot
    have hstep := hcloser slot hslot
    show (sequenceDistance (s.expected + 1) slot.sequence).toNat ≤ s.window.val
    omega
  · exact fun last _ hnil => absurd hnil hused
  · intro last hlast _
    obtain ⟨slot, hslot, hhalf, -, hle⟩ := hahead last hlast
    exact ⟨slot, hslot, hhalf, hle⟩
  · intro last hlast heq
    obtain ⟨slot, hslot, hhalf, hstep, hle⟩ := hahead last hlast
    have hzero := (distance_eq_zero_iff (sequenceOf last) (s.expected + 1)).mpr heq
    omega

theorem InOrder.drain (h : s.InOrder) (process : Bytes → Status) (flush : Bool) (nowMs : Nat) :
    (s.drain process flush nowMs).1.InOrder :=
  drain_invariant (fun _ _ _ hs hcell hsequence => hs.hand hcell hsequence)
    (fun _ _ _ hs hcell hsequence => hs.hand_advance hcell hsequence)
    (fun _ hs hused hnone => hs.skip hused hnone) h

end Rounds

/-- The number would move the window past a packet that waits in a slot. -/
def PassesOver (s : Receiver) (sequence : UInt16) : Prop :=
  sequenceBefore sequence s.expected = false ∧
    ∃ slot ∈ s.slots.used, (sequenceDistance s.expected slot.sequence).toNat + s.window.val <
      (sequenceDistance s.expected sequence).toNat

/-- The number is the expected one, and the last packet handed on had it too. -/
def RepeatsFailed (s : Receiver) (sequence : UInt16) : Prop :=
  sequence = s.expected ∧ ∃ last ∈ s.handed.getLast?, sequenceOf last = s.expected

/-- What must not happen for the order to be kept. -/
def Orderly (s : Receiver) : Event → Prop
  | .packet packet _ _ =>
    ¬ s.PassesOver (sequenceOf packet) ∧ ¬ s.RepeatsFailed (sequenceOf packet)
  | _ => True

section Arrival

variable {s : Receiver} {packet : Bytes}

theorem closeGap_eq (s : Receiver) (distance : Nat) :
    ∃ expected packetsLost, s.closeGap distance = { s with expected, packetsLost } := by
  induction distance generalizing s with
  | zero => exact ⟨s.expected, s.packetsLost, rfl⟩
  | succ distance ih =>
    unfold closeGap
    split
    · obtain ⟨expected, packetsLost, heq⟩ := ih s.skip
      exact ⟨expected, packetsLost, heq⟩
    · exact ⟨s.expected, s.packetsLost, rfl⟩

theorem closeGap_expected (sequence : UInt16) (distance : Nat) (s : Receiver)
    (h : (sequenceDistance s.expected sequence).toNat = distance) :
    (sequenceDistance s.expected (s.closeGap distance).expected).toNat = distance - s.window.val ∧
      (sequenceDistance (s.closeGap distance).expected sequence).toNat ≤ s.window.val := by
  induction distance generalizing s with
  | zero => simp [closeGap, h]
  | succ distance ih =>
    unfold closeGap
    split
    · next hfar =>
      have hne : s.expected ≠ sequence := by
        intro heq
        rw [(distance_eq_zero_iff _ _).mpr heq] at h
        omega
      have hstep := distance_succ_left s.expected sequence hne
      have hskip : (sequenceDistance s.skip.expected sequence).toNat = distance := by
        show (sequenceDistance (s.expected + 1) sequence).toNat = distance
        omega
      obtain ⟨hmoved, hleft⟩ := ih s.skip hskip
      refine ⟨?_, hleft⟩
      have htrans := distance_trans s.expected s.skip.expected
        (s.skip.closeGap distance).expected
      have hone : (sequenceDistance s.expected s.skip.expected).toNat = 1 :=
        distance_succ s.expected
      have hwindow : s.skip.window = s.window := rfl
      have hlt := distance_lt s.expected sequence
      rw [hwindow] at hmoved
      omega
    · next hnear =>
      rw [distance_self, h]
      omega

theorem distance_injective {a b c : UInt16}
    (h : (sequenceDistance a b).toNat = (sequenceDistance a c).toNat) : b = c := by
  have htrans := distance_trans a b c
  have hlt := distance_lt b c
  have hlt' := distance_lt a c
  exact (distance_eq_zero_iff b c).mp (by omega)

theorem reorderFreeSlot_isSome {expected sequence : UInt16}
    (hdistinct : (s.slots.used.map ReorderSlot.sequence).Nodup)
    (hnear : ∀ slot ∈ s.slots.used, (sequenceDistance expected slot.sequence).toNat ≤ s.window.val)
    (hsequence : (sequenceDistance expected sequence).toNat ≤ s.window.val)
    (hnone : ∀ slot ∈ s.slots.used, slot.sequence ≠ sequence) :
    ∃ index, s.reorderFreeSlot = some index := by
  by_contra hfull
  have hlength := reorderFreeSlot_none
    (Option.eq_none_iff_forall_ne_some.mpr (fun index heq => hfull ⟨index, heq⟩))
  let numbers := sequence :: s.slots.used.map ReorderSlot.sequence
  have hnodup : (numbers.map (fun b => (sequenceDistance expected b).toNat)).Nodup := by
    refine List.Nodup.map (fun b c => distance_injective) (List.nodup_cons.mpr ⟨?_, hdistinct⟩)
    intro hmem
    obtain ⟨slot, hslot, heq⟩ := List.mem_map.mp hmem
    exact hnone slot hslot heq
  have hrange : numbers.map (fun b => (sequenceDistance expected b).toNat) ⊆
      List.range (s.window.val + 1) := by
    intro d hd
    obtain ⟨b, hb, rfl⟩ := List.mem_map.mp hd
    rw [List.mem_range]
    rcases List.mem_cons.mp hb with rfl | hb
    · omega
    · obtain ⟨slot, hslot, rfl⟩ := List.mem_map.mp hb
      have := hnear slot hslot
      omega
  have hle := (hnodup.subperm hrange).length_le
  have hwindow := s.window.isLt
  simp only [numbers, List.length_map, List.length_cons, List.length_range, hlength] at hle
  omega

theorem InOrder.drop (h : s.InOrder) (packet : Bytes) :
    ((s.note packet).drop packet).InOrder :=
  ⟨h.toAccounted.drop packet, h.idle, h.near, h.distinct, h.increasing, h.empty, h.between, h.fresh⟩

theorem InOrder.begin (h : s.InOrder) (hstarted : s.started = false) (sequence : UInt16) :
    { s with expected := sequence, started := true : Receiver }.InOrder := by
  obtain ⟨hused, hhanded⟩ := h.idle hstarted
  exact ⟨⟨h.stored, h.total, h.counted⟩, by simp, by simp [hused], h.distinct, h.increasing,
    by simp [hhanded], by simp [hhanded], by simp [hhanded]⟩

/-- Storing an arrival whose number was not before the expected one, after the
gap loop went on to `expected`. -/
theorem InOrder.store (h : s.InOrder) (hstarted : s.started = true) {index : Nat}
    {slot : ReorderSlot} {expected : UInt16} (packetsLost : Nat)
    (hcell : s.slots.cells[index]? = some none)
    (hsequence : slot.sequence = sequenceOf slot.packet)
    (hahead : (sequenceDistance s.expected slot.sequence).toNat < 2 ^ 15)
    (hnone : ∀ other ∈ s.slots.used, other.sequence ≠ slot.sequence)
    (hpasses : ∀ other ∈ s.slots.used, (sequenceDistance s.expected slot.sequence).toNat ≤
      (sequenceDistance s.expected other.sequence).toNat + s.window.val)
    (hrepeats : ¬ s.RepeatsFailed slot.sequence)
    (hmoved : (sequenceDistance s.expected expected).toNat =
      (sequenceDistance s.expected slot.sequence).toNat - s.window.val)
    (hleft : (sequenceDistance expected slot.sequence).toNat ≤ s.window.val) :
    ({ s.note slot.packet with expected, packetsLost }.store index slot).InOrder := by
  have hperm := Slots.used_put_some slot hcell
  have hmem : ∀ {other}, other ∈ (s.slots.put index (some slot)).used ↔
      other = slot ∨ other ∈ s.slots.used := fun {other} => by
    rw [hperm.mem_iff, List.mem_cons]
  -- from the last packet handed on to the new expected number
  have hlast : ∀ last ∈ s.handed.getLast?, (∃ other ∈ (s.slots.put index (some slot)).used,
        (sequenceDistance (sequenceOf last) other.sequence).toNat ≤ 2 ^ 15 ∧
        (sequenceDistance (sequenceOf last) expected).toNat ≤
          (sequenceDistance (sequenceOf last) other.sequence).toNat) ∧
      (sequenceDistance (sequenceOf last) expected).toNat =
        (sequenceDistance (sequenceOf last) s.expected).toNat +
          (sequenceDistance s.expected expected).toNat := by
    intro last hmemLast
    have htrans := distance_trans (sequenceOf last) s.expected expected
    cases hused : s.slots.used with
    | nil =>
      have hempty := h.empty last hmemLast hused
      have htrans' := distance_trans (sequenceOf last) s.expected slot.sequence
      refine ⟨⟨slot, hmem.mpr (.inl rfl), ?_, ?_⟩, ?_⟩
      · omega
      · omega
      · omega
    | cons first rest =>
      obtain ⟨other, hother, hhalf, hbetween⟩ := h.between last hmemLast (by simp [hused])
      have hpass := hpasses other hother
      have htrans' := distance_trans (sequenceOf last) s.expected other.sequence
      have hlt := distance_lt s.expected other.sequence
      refine ⟨⟨other, hmem.mpr (.inr hother), hhalf, ?_⟩, ?_⟩
      · omega
      · omega
  have haccounted := h.toAccounted.store hcell hsequence
  refine ⟨⟨haccounted.stored, haccounted.total, h.counted⟩, ?_, ?_, ?_, h.increasing, ?_, ?_, ?_⟩
  · intro hnot
    exact absurd (hnot.symm.trans hstarted) (by simp)
  · intro other hother
    rcases hmem.mp hother with rfl | hold
    · exact hleft
    · have hnear := h.near other hold
      have hpass := hpasses other hold
      have htrans := distance_trans s.expected expected other.sequence
      have hlt := distance_lt expected other.sequence
      show (sequenceDistance expected other.sequence).toNat ≤ s.window.val
      omega
  · refine (hperm.map _).nodup_iff.mpr (List.nodup_cons.mpr ⟨?_, h.distinct⟩)
    intro hmemSequence
    obtain ⟨other, hother, heq⟩ := List.mem_map.mp hmemSequence
    exact hnone other hother heq
  · intro last _ hnil
    exact absurd hnil (List.ne_nil_of_mem (hmem.mpr (.inl rfl)))
  · exact fun last hmemLast _ => (hlast last hmemLast).1
  · intro last hmemLast heq other hother hnumber
    have hadd := (hlast last hmemLast).2
    have hzero : (sequenceDistance (sequenceOf last) expected).toNat = 0 :=
      (distance_eq_zero_iff _ _).mpr heq
    have hsame : s.expected = expected := (distance_eq_zero_iff _ _).mp (by omega)
    have hfailed : sequenceOf last = s.expected := (distance_eq_zero_iff _ _).mp (by omega)
    replace hnumber : other.sequence = s.expected := hnumber.trans hsame.symm
    rcases hmem.mp hother with rfl | hold
    · exact hrepeats ⟨hnumber, last, hmemLast, hfailed⟩
    · exact h.fresh last hmemLast hfailed other hold hnumber

/-- Receiving a packet from a state in which the stream was begun. -/
theorem InOrder.acceptStarted (h : s.InOrder) (hstarted : s.started = true) (packet : Bytes)
    (nowMs : Nat) (process : Bytes → Status)
    (horderly : s.Orderly (.packet packet nowMs process)) :
    (s.acceptPacket packet nowMs process).1.InOrder := by
  obtain ⟨hpasses, hrepeats⟩ := horderly
  unfold acceptPacket
  have hnote : (s.note packet).started = true := hstarted
  have hbegin : (s.note packet).beginAt (sequenceOf packet) = s.note packet := by
    rw [beginAt, if_pos hnote]
  simp only [hnote, Bool.true_and, hbegin]
  split
  · exact h.drop packet
  · next hbefore =>
    have hnot : sequenceBefore (sequenceOf packet) (s.note packet).expected = false := by
      simpa using hbefore
    have hbefore' : sequenceBefore (sequenceOf packet) s.expected = false := hnot
    have hahead : (sequenceDistance s.expected (sequenceOf packet)).toNat < 2 ^ 15 := by
      by_contra hfar
      rw [(sequenceBefore_iff _ _).mpr (by omega)] at hbefore'
      exact absurd hbefore' (by simp)
    split
    · exact h.drop packet
    · next hfind =>
      have hnone : ∀ slot ∈ s.slots.used, slot.sequence ≠ sequenceOf packet := by
        have hfind' : (s.note packet).reorderFind (sequenceOf packet) = none := by
          simpa using hfind
        exact reorderFind_none hfind'
      have hnotPassed : ∀ slot ∈ s.slots.used,
          (sequenceDistance s.expected (sequenceOf packet)).toNat ≤
            (sequenceDistance s.expected slot.sequence).toNat + s.window.val := by
        intro slot hslot
        by_contra hpass
        exact hpasses ⟨hbefore', slot, hslot, by omega⟩
      obtain ⟨hmoved, hleft⟩ := closeGap_expected (sequenceOf packet) _ (s.note packet) rfl
      obtain ⟨expected, packetsLost, hgap⟩ := closeGap_eq (s.note packet)
        (sequenceDistance (s.note packet).expected (sequenceOf packet)).toNat
      simp only [hgap] at hmoved hleft ⊢
      replace hmoved : (sequenceDistance s.expected expected).toNat =
        (sequenceDistance s.expected (sequenceOf packet)).toNat - s.window.val := hmoved
      have hnear : ∀ slot ∈ s.slots.used,
          (sequenceDistance expected slot.sequence).toNat ≤ s.window.val := by
        intro slot hslot
        have hold := h.near slot hslot
        have hpass := hnotPassed slot hslot
        have htrans := distance_trans s.expected expected slot.sequence
        have hlt := distance_lt expected slot.sequence
        omega
      obtain ⟨index, hfree⟩ :=
        reorderFreeSlot_isSome h.distinct hnear hleft hnone
      have hcell := reorderFreeSlot_some hfree
      have hfree' : reorderFreeSlot { s.note packet with expected, packetsLost } =
          some index := hfree
      simp only [hfree']
      refine InOrder.drain ?_ process false nowMs
      let slot : ReorderSlot := ⟨sequenceOf packet, jitterReleaseAt nowMs s.jitterDelayMs, packet⟩
      have hstored : slot.sequence = sequenceOf slot.packet := rfl
      exact h.store hstarted packetsLost hcell hstored hahead hnone hnotPassed hrepeats hmoved
        hleft

/-- **Receiving a packet keeps the order, unless it passes over a waiting packet
or repeats one whose processing failed.** -/
theorem InOrder.acceptPacket (h : s.InOrder) (packet : Bytes) (nowMs : Nat)
    (process : Bytes → Status) (horderly : s.Orderly (.packet packet nowMs process)) :
    (s.acceptPacket packet nowMs process).1.InOrder := by
  cases hstarted : s.started with
  | true => exact h.acceptStarted hstarted packet nowMs process horderly
  | false =>
    have hbegun := h.begin hstarted (sequenceOf packet)
    obtain ⟨hused, hhanded⟩ := h.idle hstarted
    have heq : s.acceptPacket packet nowMs process =
        { s with expected := sequenceOf packet, started := true : Receiver }.acceptPacket
          packet nowMs process := by
      have hself : sequenceBefore (sequenceOf packet) (sequenceOf packet) = false := by
        simp [sequenceBefore]
      simp [Receiver.acceptPacket, Receiver.note, Receiver.beginAt, hstarted, hself]
    rw [heq]
    refine hbegun.acceptStarted rfl packet nowMs process ⟨?_, ?_⟩
    · rintro ⟨-, slot, hslot, -⟩
      exact absurd hslot (by simp [hused])
    · rintro ⟨-, last, hlast, -⟩
      exact absurd hlast (by simp [hhanded])

end Arrival

section Runs

variable {s : Receiver}

theorem drain_window (process : Bytes → Status) (flush : Bool) (nowMs : Nat) :
    (s.drain process flush nowMs).1.window = s.window :=
  drain_invariant (P := fun t => t.window = s.window) (fun _ _ _ ht _ _ => ht)
    (fun _ _ _ ht _ _ => ht) (fun _ ht _ _ => ht) rfl

theorem acceptPacket_window (packet : Bytes) (nowMs : Nat) (process : Bytes → Status) :
    (s.acceptPacket packet nowMs process).1.window = s.window := by
  have hbegin : ((s.note packet).beginAt (sequenceOf packet)).window = s.window := by
    unfold beginAt
    split
    · rfl
    · rfl
  unfold acceptPacket
  simp only
  split
  · rfl
  · split
    · exact hbegin
    · obtain ⟨expected, packetsLost, hgap⟩ :=
        closeGap_eq ((s.note packet).beginAt (sequenceOf packet)) (sequenceDistance
          ((s.note packet).beginAt (sequenceOf packet)).expected (sequenceOf packet)).toNat
      rw [hgap]
      split
      · exact hbegin
      · rw [drain_window]
        exact hbegin

theorem next_window (event : Event) : (s.next event).window = s.window := by
  cases event with
  | packet packet nowMs process =>
    simp only [next, receiveRtpPacketAt]
    split
    · rfl
    · split
      · rfl
      · exact acceptPacket_window packet nowMs process
  | tick nowMs process =>
    simp only [next, tickReceiveJitter]
    split
    · rfl
    · exact drain_window process false nowMs
  | flush process =>
    simp only [next, flushReceiveReorder]
    split
    · rfl
    · exact drain_window process true 0
  | setJitterDelay delayMs => rfl

theorem InOrder.next (h : s.InOrder) (hwindow : 0 < s.window.val) {event : Event}
    (horderly : s.Orderly event) : (s.next event).InOrder := by
  cases event with
  | packet packet nowMs process =>
    simp only [Receiver.next, receiveRtpPacketAt, if_neg hwindow.ne']
    split
    · exact h
    · exact h.acceptPacket packet nowMs process horderly
  | tick nowMs process =>
    simp only [Receiver.next, tickReceiveJitter]
    split
    · exact h
    · exact h.drain process false nowMs
  | flush process =>
    simp only [Receiver.next, flushReceiveReorder]
    split
    · exact h
    · exact h.drain process true 0
  | setJitterDelay delayMs =>
    exact ⟨⟨h.stored, h.total, h.counted⟩, h.idle, h.near, h.distinct, h.increasing, h.empty,
      h.between, h.fresh⟩

/-- What the buffer owes its caller: the packets handed on have increasing numbers
(around the circle, by at most half of it), every received packet was handed on
once, waits in one slot or is counted as dropped, and none waits behind the
expected number. -/
structure Delivered (s : Receiver) : Prop where
  increasing : s.handed.IsChain (fun a b => Follows (sequenceOf a) (sequenceOf b))
  total : s.received.Perm (s.handed ++ s.slots.used.map ReorderSlot.packet ++ s.dropped)
  counted : s.packetsDropped = min uint32Max s.dropped.length
  waiting : ∀ slot ∈ s.slots.used, slot.sequence = sequenceOf slot.packet ∧
    sequenceBefore slot.sequence s.expected = false

theorem InOrder.delivered (h : s.InOrder) : s.Delivered := by
  refine ⟨h.increasing, h.total, h.counted, ?_⟩
  intro slot hslot
  refine ⟨h.stored slot hslot, ?_⟩
  have hnear := h.near slot hslot
  have hwindow := s.window.isLt
  simp only [reorderQueueCap] at hwindow
  rw [← Bool.not_eq_true, sequenceBefore_iff]
  omega

/-- **Every state of a run in which no arrival passes over a waiting packet or
repeats the number of a packet whose processing failed.** -/
theorem delivered_of_reach {window : Fin reorderQueueCap} (hwindow : 0 < window.val)
    (jitterDelayMs : Nat)
    (h : Machine.Reach next Orderly (start window jitterDelayMs) s) : s.Delivered := by
  have hinv : s.InOrder ∧ s.window = window := by
    refine h.invariant (P := fun t => t.InOrder ∧ t.window = window)
      ⟨start_inOrder window jitterDelayMs, rfl⟩ ?_
    rintro t event ⟨ht, hw⟩ horderly
    exact ⟨ht.next (by rw [hw]; exact hwindow) horderly, next_window event |>.trans hw⟩
  exact hinv.1.delivered

/-- An RTP packet with the given number, without payload. -/
def bareRtp (sequence : UInt16) : Bytes :=
  [0x80, 0x78, (sequence >>> 8).toUInt8, sequence.toUInt8, 0, 0, 0, 0, 0, 0, 0, 1]

/-- Its arrival at time zero, with processing that succeeds. -/
def arrival (sequence : UInt16) : Event := .packet (bareRtp sequence) 0 (fun _ => .ok)

/-- Numbers wrap, one packet is late and one comes twice: the run is orderly. -/
theorem delivered_around_the_circle :
    (([65534, 0, 65535, 65535, 1].map arrival).foldl next
        (start ⟨2, by decide⟩ 0)).handed.map sequenceOf = [65534, 65535, 0, 1] ∧
      (([65534, 0, 65535, 65535, 1].map arrival).foldl next (start ⟨2, by decide⟩ 0)).Delivered :=
  ⟨by decide, delivered_of_reach (by decide) 0 (Machine.Reach.start.run (by
    simp only [Machine.Permitted, List.map, Orderly, PassesOver, RepeatsFailed, arrival]
    decide))⟩

/-- Window 2, packets 10, 12 and 20: the window moves on to 18 and packet 12 is
left in its slot, neither handed on nor dropped. -/
theorem stale_slot :
    ¬ (([10, 12, 20].map arrival).foldl next (start ⟨2, by decide⟩ 0)).Delivered := by
  intro h
  have hwaiting : ∀ slot ∈ (([10, 12, 20].map arrival).foldl next
      (start ⟨2, by decide⟩ 0)).slots.used, sequenceBefore slot.sequence 18 = false :=
    fun slot hslot => (h.waiting slot hslot).2
  exact absurd hwaiting (by decide)

end Runs

end Receiver

end Dcc.Voice
