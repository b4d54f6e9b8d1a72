import Dcc.Voice.ReorderOrder

/-!
# What the drain loop goes past

The loop of `dcc_voice_reorder_drain` goes past a number when it has handed its packet on, or
when no slot has it; the second kind is counted as lost.  Beside the connection, `Tracked` keeps
the numbers from the expected one on for which a packet was received, and `drainTrace` the rounds
of the loop that went past a number.

* `failed_not_passed` — a packet whose processing fails leaves its slot, and the expected number
  stays at it, to be waited for or counted as lost by the next drain;
* `losses_counted` — in runs in which no arrival moves the window past a waiting packet and no
  drain goes past the number of a failed one, what is counted as lost was not received, and no
  flush goes past a number that a waiting packet is behind.
-/

namespace Dcc.Voice

open Machine

namespace Receiver

section Failed

variable {process : Bytes → Status} {flush : Bool} {nowMs : Nat} {s s' : Receiver}
  {status : Status}

theorem drainLoop_failed (fuel : Nat) (h : drainLoop process flush nowMs fuel s = some (s', status))
    (hfailed : status ≠ .ok) :
    ∃ (t : Receiver) (index : Nat) (slot : ReorderSlot), slot ∈ s.slots.used ∧
      slot.sequence = t.expected ∧ process slot.packet = status ∧
      s' = t.hand index slot.packet := by
  induction fuel generalizing s with
  | zero => simp [drainLoop] at h
  | succ fuel ih =>
    unfold drainLoop at h
    cases hfind : s.reorderFind s.expected with
    | some index =>
      obtain ⟨slot, hcell, hsequence⟩ := reorderFind_some hfind
      have hperm := Slots.used_put_none hcell
      simp only [hfind, List.getD_eq_getElem?_getD, hcell, Option.getD_some] at h
      split at h
      · obtain ⟨-, rfl⟩ := Prod.mk.inj (Option.some.inj h)
        exact absurd rfl hfailed
      · split at h
        · obtain ⟨rfl, rfl⟩ := Prod.mk.inj (Option.some.inj h)
          exact ⟨s, index, slot, hperm.mem_iff.mpr List.mem_cons_self, hsequence, rfl, rfl⟩
        · obtain ⟨t, index', slot', hmem, hrest⟩ := ih h
          exact ⟨t, index', slot', hperm.mem_iff.mpr (List.mem_cons_of_mem _ hmem), hrest⟩
    | none =>
      simp only [hfind] at h
      split at h
      · obtain ⟨-, rfl⟩ := Prod.mk.inj (Option.some.inj h)
        exact absurd rfl hfailed
      · exact ih (s := s.skip) h

theorem drain_of_missing (hmissing : s.reorderFind s.expected = none) :
    s.drain process flush nowMs =
      if s.drainWaits flush nowMs then (s, .ok) else s.skip.drain process flush nowMs := by
  have hloop : drainLoop process flush nowMs (drainFuel + 1) s =
      some (if s.drainWaits flush nowMs then (s, .ok) else s.skip.drain process flush nowMs) := by
    rw [drainLoop, hmissing]
    simp only
    split
    · rfl
    · exact drain_eq process flush nowMs s.skip
  exact drain_of_loop hloop

/-- The drain is past the last packet that it handed on. -/
def PassesFailed (s : Receiver) (process : Bytes → Status) (flush : Bool) (nowMs : Nat) : Prop :=
  ∀ slot ∈ s.slots.used, (s.drain process flush nowMs).1.handed.getLast? = some slot.packet →
    sequenceBefore slot.sequence (s.drain process flush nowMs).1.expected = true

/-- **A drain never goes past a packet whose processing failed.**  The packet was the last one
handed on, the expected number is still its own, and it is in no slot any more: unless a slot
has that number once more, the next drain stops at once or counts the number as lost before it
hands on anything. -/
theorem failed_not_passed (s : Receiver) (process : Bytes → Status) (flush : Bool) (nowMs : Nat)
    (hfailed : (s.drain process flush nowMs).2 ≠ .ok) :
    ¬ s.PassesFailed process flush nowMs ∧ ∃ slot ∈ s.slots.used,
        process slot.packet = (s.drain process flush nowMs).2 ∧
        (s.drain process flush nowMs).1.handed.getLast? = some slot.packet ∧
        (s.drain process flush nowMs).1.expected = slot.sequence ∧
        ((∀ other ∈ (s.drain process flush nowMs).1.slots.used, other.sequence ≠ slot.sequence) →
          ∀ process' flush' nowMs', (s.drain process flush nowMs).1.drain process' flush' nowMs' =
              if (s.drain process flush nowMs).1.drainWaits flush' nowMs' then
                ((s.drain process flush nowMs).1, .ok)
              else (s.drain process flush nowMs).1.skip.drain process' flush' nowMs') := by
  obtain ⟨t, index, slot, hmem, hsequence, hstatus, heq⟩ :
      ∃ (t : Receiver) (index : Nat) (slot : ReorderSlot), slot ∈ s.slots.used ∧
        slot.sequence = t.expected ∧ process slot.packet = (s.drain process flush nowMs).2 ∧
        (s.drain process flush nowMs).1 = t.hand index slot.packet :=
    drainLoop_failed drainFuel (drain_eq process flush nowMs s) hfailed
  have hexpected : (s.drain process flush nowMs).1.expected = slot.sequence := by
    rw [heq, hsequence]
    rfl
  have hself : sequenceBefore slot.sequence slot.sequence = false := by
    simp [sequenceBefore]
  have hlast : (s.drain process flush nowMs).1.handed.getLast? = some slot.packet := by
    rw [heq]
    simp [hand]
  refine ⟨fun hpasses => ?_, slot, hmem, hstatus, hlast, hexpected, ?_⟩
  · have hbefore := hpasses slot hmem hlast
    rw [hexpected, hself] at hbefore
    exact absurd hbefore (by simp)
  · intro hnone process' flush' nowMs'
    refine drain_of_missing ?_
    cases hfind : (s.drain process flush nowMs).1.reorderFind
        (s.drain process flush nowMs).1.expected with
    | none => rfl
    | some index' =>
      obtain ⟨other, hcell, hsame⟩ := reorderFind_some hfind
      have hused := (Slots.used_put_none hcell).mem_iff.mpr List.mem_cons_self
      exact absurd (hsame.trans hexpected) (hnone other hused)

/-- Window 2: processing of packet 10 fails, then packet 11 arrives. -/
def afterFailure : Receiver :=
  [Event.packet (bareRtp 10) 0 (fun _ => .state), arrival 11].foldl next (start ⟨2, by decide⟩ 0)

/-- Packet 10 waits in a slot, and its processing will fail. -/
def beforeFailure : Receiver :=
  ((start ⟨2, by decide⟩ 0).beginAt 10).store 0 ⟨10, 0, bareRtp 10⟩

theorem failed_not_passed_ten :
    (beforeFailure.drain (fun _ => .state) false 0).2 = .state ∧
      ¬ beforeFailure.PassesFailed (fun _ => .state) false 0 :=
  ⟨by decide, (failed_not_passed beforeFailure (fun _ => .state) false 0 (by decide)).1⟩

/-- Packet 10 fails, packet 11 waits behind it, no tick delivers it, and the flush that does
counts packet 10 as lost. -/
theorem stuck_behind_failed :
    (¬ ∀ s process flush nowMs, (drain s process flush nowMs).2 ≠ .ok →
      s.PassesFailed process flush nowMs) ∧
    afterFailure.expected = 10 ∧
    (afterFailure.tickReceiveJitter 1000 (fun _ => .ok)).1.handed = afterFailure.handed ∧
    (afterFailure.flushReceiveReorder (fun _ => .ok)).1.packetsLost = 1 := by
  refine ⟨fun h => ?_, by decide, by decide, by decide⟩
  have hpasses := h beforeFailure (fun _ => .state) false 0 (by decide)
  exact absurd (hpasses ⟨10, 0, bareRtp 10⟩ (by decide) (by decide)) (by decide)

end Failed

/-! ## The numbers that were received -/

/-- A connection, and the numbers from the expected one on for which a packet was received. -/
structure Tracked where
  receiver : Receiver
  seen : List UInt16

/-- A round of the drain loop that goes past the expected number of `before`. -/
structure Round where
  before : Tracked
  skipped : Bool

/-- The number is counted as lost, and no packet was received for it. -/
def Round.unreceived (round : Round) : Bool :=
  round.skipped && !round.before.seen.contains round.before.receiver.expected

namespace Tracked

/-- The expected number is gone past. -/
def pass (t : Tracked) (receiver : Receiver) : Tracked :=
  ⟨receiver, t.seen.filter fun number => number != t.receiver.expected⟩

/-- The loop of `dcc_voice_reorder_drain` with the rounds that go past a number. -/
def drainTrace (process : Bytes → Status) (flush : Bool) (nowMs : Nat) :
    Nat → Tracked → Option (List Round × Tracked × Status)
  | 0, _ => none
  | fuel + 1, t =>
    match t.receiver.reorderFind t.receiver.expected with
    | some index =>
      match t.receiver.slots.cells.getD index none with
      | none => some ([], t, .ok)
      | some slot =>
        if !flush && t.receiver.jitterDelayMs ≠ 0 && nowMs < slot.releaseAtMs then
          some ([], t, .ok)
        else
          let receiver := t.receiver.hand index slot.packet
          let status := process slot.packet
          if status ≠ .ok then some ([], ⟨receiver, t.seen⟩, status)
          else
            (drainTrace process flush nowMs fuel (t.pass receiver.advance)).map
              fun (rounds, result) => (⟨t, false⟩ :: rounds, result)
    | none =>
      if t.receiver.drainWaits flush nowMs then some ([], t, .ok)
      else
        (drainTrace process flush nowMs fuel (t.pass t.receiver.skip)).map
          fun (rounds, result) => (⟨t, true⟩ :: rounds, result)

/-- The trace of a drain. -/
def trace (t : Tracked) (process : Bytes → Status) (flush : Bool) (nowMs : Nat) :
    List Round × Tracked × Status :=
  (drainTrace process flush nowMs drainFuel t).getD ([], t, .ok)

/-- What the loop does to a tracked connection, round by round. -/
inductive Drains (process : Bytes → Status) (flush : Bool) (nowMs : Nat) :
    Tracked → List Round → Tracked → Status → Prop
  /-- The loop ends, and nothing is handed on. -/
  | stop (t : Tracked) : Drains process flush nowMs t [] t .ok
  /-- Processing fails. -/
  | failed (t : Tracked) (index : Nat) (slot : ReorderSlot)
      (hcell : t.receiver.slots.cells[index]? = some (some slot))
      (hsequence : slot.sequence = t.receiver.expected) (hstatus : process slot.packet ≠ .ok) :
      Drains process flush nowMs t [] ⟨t.receiver.hand index slot.packet, t.seen⟩
        (process slot.packet)
  /-- The packet of the expected number is handed on. -/
  | handed (t t' : Tracked) (index : Nat) (slot : ReorderSlot) (rounds : List Round)
      (status : Status) (hcell : t.receiver.slots.cells[index]? = some (some slot))
      (hsequence : slot.sequence = t.receiver.expected)
      (hrest : Drains process flush nowMs
        (t.pass (t.receiver.hand index slot.packet).advance) rounds t' status) :
      Drains process flush nowMs t (⟨t, false⟩ :: rounds) t' status
  /-- No slot has the expected number, and the loop goes on. -/
  | skipped (t t' : Tracked) (rounds : List Round) (status : Status)
      (hmissing : t.receiver.reorderFind t.receiver.expected = none)
      (hgoes : t.receiver.drainWaits flush nowMs = false)
      (hrest : Drains process flush nowMs (t.pass t.receiver.skip) rounds t' status) :
      Drains process flush nowMs t (⟨t, true⟩ :: rounds) t' status

section Trace

variable {process : Bytes → Status} {flush : Bool} {nowMs : Nat} {t t' : Tracked}
  {rounds : List Round} {status : Status}

theorem drains_of_trace (fuel : Nat)
    (h : drainTrace process flush nowMs fuel t = some (rounds, t', status)) :
    Drains process flush nowMs t rounds t' status := by
  induction fuel generalizing t rounds with
  | zero => simp [drainTrace] at h
  | succ fuel ih =>
    unfold drainTrace at h
    cases hfind : t.receiver.reorderFind t.receiver.expected with
    | some index =>
      obtain ⟨slot, hcell, hsequence⟩ := reorderFind_some hfind
      simp only [hfind, List.getD_eq_getElem?_getD, hcell, Option.getD_some] at h
      split at h
      · simp only [Option.some.injEq, Prod.mk.injEq] at h
        obtain ⟨rfl, rfl, rfl⟩ := h
        exact .stop t
      · split at h
        · next hstatus =>
          simp only [Option.some.injEq, Prod.mk.injEq] at h
          obtain ⟨rfl, rfl, rfl⟩ := h
          exact .failed t index slot hcell hsequence hstatus
        · obtain ⟨⟨rest, result⟩, hrest, heq⟩ := Option.map_eq_some_iff.mp h
          simp only [Prod.mk.injEq] at heq
          obtain ⟨rfl, rfl⟩ := heq
          exact .handed t t' index slot rest status hcell hsequence (ih hrest)
    | none =>
      simp only [hfind] at h
      split at h
      · simp only [Option.some.injEq, Prod.mk.injEq] at h
        obtain ⟨rfl, rfl, rfl⟩ := h
        exact .stop t
      · next hwaits =>
        obtain ⟨⟨rest, result⟩, hrest, heq⟩ := Option.map_eq_some_iff.mp h
        simp only [Prod.mk.injEq] at heq
        obtain ⟨rfl, rfl⟩ := heq
        exact .skipped t t' rest status hfind (by simpa using hwaits) (ih hrest)

theorem drainTrace_loop (fuel : Nat) (t : Tracked) :
    (drainTrace process flush nowMs fuel t).map (fun x => (x.2.1.receiver, x.2.2)) =
      drainLoop process flush nowMs fuel t.receiver := by
  induction fuel generalizing t with
  | zero => rfl
  | succ fuel ih =>
    unfold drainTrace drainLoop
    cases hfind : t.receiver.reorderFind t.receiver.expected with
    | some index =>
      obtain ⟨slot, hcell, -⟩ := reorderFind_some hfind
      simp only [List.getD_eq_getElem?_getD, hcell, Option.getD_some]
      split
      · rfl
      · split
        · rfl
        · rw [Option.map_map]
          exact ih (t.pass (t.receiver.hand index slot.packet).advance)
    | none =>
      simp only
      split
      · rfl
      · rw [Option.map_map]
        exact ih (t.pass t.receiver.skip)

theorem trace_spec (t : Tracked) (process : Bytes → Status) (flush : Bool) (nowMs : Nat) :
    Drains process flush nowMs t (t.trace process flush nowMs).1
        (t.trace process flush nowMs).2.1 (t.trace process flush nowMs).2.2 ∧
      ((t.trace process flush nowMs).2.1.receiver, (t.trace process flush nowMs).2.2) =
        t.receiver.drain process flush nowMs := by
  have hloop : (drainTrace process flush nowMs drainFuel t).map
      (fun x => (x.2.1.receiver, x.2.2)) = some (t.receiver.drain process flush nowMs) :=
    (drainTrace_loop drainFuel t).trans (drain_eq process flush nowMs t.receiver)
  obtain ⟨⟨rounds, t', status⟩, htrace, heq⟩ := Option.map_eq_some_iff.mp hloop
  have hgetD : t.trace process flush nowMs = (rounds, t', status) := by
    rw [trace, htrace, Option.getD_some]
  rw [hgetD]
  exact ⟨drains_of_trace drainFuel htrace, heq⟩

theorem trace_head (t : Tracked) (process : Bytes → Status) (flush : Bool) (nowMs : Nat)
    (hmissing : t.receiver.reorderFind t.receiver.expected = none)
    (hgoes : t.receiver.drainWaits flush nowMs = false) :
    ∃ rest, (t.trace process flush nowMs).1 = ⟨t, true⟩ :: rest := by
  have hloop : (drainTrace process flush nowMs drainFuel t).map
      (fun x => (x.2.1.receiver, x.2.2)) = some (t.receiver.drain process flush nowMs) :=
    (drainTrace_loop drainFuel t).trans (drain_eq process flush nowMs t.receiver)
  obtain ⟨result, htrace, -⟩ := Option.map_eq_some_iff.mp hloop
  have hgetD : t.trace process flush nowMs = result := by
    rw [trace, htrace, Option.getD_some]
  obtain ⟨fuel, hfuel⟩ : ∃ fuel, drainFuel = fuel + 1 := ⟨drainFuel - 1, rfl⟩
  rw [hfuel, drainTrace, hmissing] at htrace
  simp only [hgoes, Bool.false_eq_true, if_false] at htrace
  obtain ⟨⟨rest, result'⟩, -, rfl⟩ := Option.map_eq_some_iff.mp htrace
  exact ⟨rest, by rw [hgetD]⟩

end Trace

/-- The gap loop of the receive path. -/
def closeGap (t : Tracked) : Nat → Tracked
  | 0 => t
  | distance + 1 =>
    if distance + 1 > t.receiver.window.val then (t.pass t.receiver.skip).closeGap distance
    else t

/-- `dcc_voice_client_receive_rtp_packet_at` up to its call of the drain, and whether it comes
to that. -/
def arrive (t : Tracked) (packet : Bytes) (nowMs : Nat) : Tracked × Bool :=
  if t.receiver.window.val = 0 then
    (⟨{ t.receiver.note packet with handed := t.receiver.handed ++ [packet] }, t.seen⟩, false)
  else
    match admits packet with
    | .error _ => (t, false)
    | .ok _ =>
      let sequence := sequenceOf packet
      let s := t.receiver.note packet
      if s.started && sequenceBefore sequence s.expected then (⟨s.drop packet, t.seen⟩, false)
      else
        let s := s.beginAt sequence
        let t : Tracked := ⟨s, sequence :: t.seen⟩
        if (s.reorderFind sequence).isSome then (⟨s.drop packet, t.seen⟩, false)
        else
          let t := t.closeGap (sequenceDistance s.expected sequence).toNat
          match t.receiver.reorderFreeSlot with
          | none => (⟨t.receiver.drop packet, t.seen⟩, false)
          | some index =>
            (⟨t.receiver.store index
              ⟨sequence, jitterReleaseAt nowMs t.receiver.jitterDelayMs, packet⟩, t.seen⟩, true)

/-- A call up to its drain, and whether it drains. -/
def prepare (t : Tracked) : Event → Tracked × Bool
  | .packet packet nowMs _ => t.arrive packet nowMs
  | .tick _ _ => (t, t.receiver.started)
  | .flush _ => (t, t.receiver.started)
  | .setJitterDelay delayMs => (⟨{ t.receiver with jitterDelayMs := delayMs }, t.seen⟩, false)

end Tracked

/-- What processing comes back with, whether the call flushes, and its time. -/
def Event.drainArgs : Event → (Bytes → Status) × Bool × Nat
  | .packet _ nowMs process => (process, false, nowMs)
  | .tick nowMs process => (process, false, nowMs)
  | .flush process => (process, true, 0)
  | .setJitterDelay _ => (fun _ => .ok, false, 0)

/-- `dcc_voice_client_clear_receive_reorder`. -/
def clearReceiveReorder (s : Receiver) : Receiver :=
  { s with slots := .empty, started := false, expected := 0 }

/-- `dcc_voice_client_set_receive_reorder_window`. -/
def setReceiveReorderWindow (s : Receiver) (window : Fin reorderQueueCap) : Receiver :=
  if s.window ≠ window then { s.clearReceiveReorder with window } else s

/-- A call on a connection over its whole life. -/
inductive Call
  | event (event : Event)
  | clear
  | setWindow (window : Fin reorderQueueCap)

namespace Tracked

/-- One call. -/
def next (t : Tracked) : Call → Tracked
  | .event event =>
    let (u, drains) := t.prepare event
    let (process, flush, nowMs) := event.drainArgs
    if drains then (u.trace process flush nowMs).2.1 else u
  | .clear => ⟨t.receiver.clearReceiveReorder, []⟩
  | .setWindow window =>
    if t.receiver.window ≠ window then ⟨t.receiver.setReceiveReorderWindow window, []⟩ else t

/-- A connection that has received nothing. -/
def start (window : Fin reorderQueueCap) (jitterDelayMs : Nat) : Tracked :=
  ⟨Receiver.start window jitterDelayMs, []⟩

theorem closeGap_receiver (t : Tracked) (distance : Nat) :
    (t.closeGap distance).receiver = t.receiver.closeGap distance := by
  induction distance generalizing t with
  | zero => rfl
  | succ distance ih =>
    unfold closeGap Receiver.closeGap
    split
    · exact ih (t.pass t.receiver.skip)
    · rfl

/-- The slots are within the window from the expected number, and what was received from there
on waits in one, but for the packet of the expected number where its processing failed. -/
structure Sound (t : Tracked) : Prop where
  stored : ∀ slot ∈ t.receiver.slots.used, slot.sequence = sequenceOf slot.packet
  idle : t.receiver.started = false → t.receiver.slots.used = [] ∧ t.seen = []
  near : ∀ slot ∈ t.receiver.slots.used,
    (sequenceDistance t.receiver.expected slot.sequence).toNat ≤ t.receiver.window.val
  distinct : (t.receiver.slots.used.map ReorderSlot.sequence).Nodup
  known : ∀ number ∈ t.seen, (∃ slot ∈ t.receiver.slots.used, slot.sequence = number) ∨
      (number = t.receiver.expected ∧ ∃ last ∈ t.receiver.handed.getLast?, sequenceOf last = number)
  lost : t.receiver.packetsLost ≤ uint32Max
  /-- Without a window nothing is received for a slot. -/
  closed : t.receiver.window.val = 0 → t.seen = []

theorem start_sound (window : Fin reorderQueueCap) (jitterDelayMs : Nat) :
    (start window jitterDelayMs).Sound := by
  constructor <;> simp [start, Receiver.start]

section Rounds

variable {t : Tracked} {index : Nat} {slot : ReorderSlot}

theorem Sound.hand (h : t.Sound) (hcell : t.receiver.slots.cells[index]? = some (some slot))
    (hsequence : slot.sequence = t.receiver.expected) :
    Sound ⟨t.receiver.hand index slot.packet, t.seen⟩ := by
  have hperm := Slots.used_put_none hcell
  have hmem : slot ∈ t.receiver.slots.used := hperm.mem_iff.mpr List.mem_cons_self
  have hold : ∀ {other}, other ∈ (t.receiver.slots.put index none).used →
      other ∈ t.receiver.slots.used := fun hother =>
    hperm.mem_iff.mpr (List.mem_cons_of_mem _ hother)
  have hlast : ∃ last ∈ (t.receiver.handed ++ [slot.packet]).getLast?,
      sequenceOf last = t.receiver.expected :=
    ⟨slot.packet, by simp, (h.stored slot hmem).symm.trans hsequence⟩
  refine ⟨fun other hother => h.stored other (hold hother), ?_,
    fun other hother => h.near other (hold hother), ?_, ?_, h.lost, h.closed⟩
  · intro hstarted
    rw [(h.idle hstarted).1] at hmem
    exact absurd hmem List.not_mem_nil
  · have hnodup := (hperm.map ReorderSlot.sequence).nodup_iff.mp h.distinct
    exact (List.nodup_cons.mp hnodup).2
  · intro number hnumber
    by_cases hexpected : number = t.receiver.expected
    · exact .inr ⟨hexpected, hexpected ▸ hlast⟩
    · rcases h.known number hnumber with ⟨other, hother, rfl⟩ | ⟨hsame, -⟩
      · rcases List.mem_cons.mp (hperm.mem_iff.mp hother) with rfl | hrest
        · exact absurd hsequence hexpected
        · exact .inl ⟨other, hrest, rfl⟩
      · exact absurd hsame hexpected

/-- Every number that was received waits in a slot. -/
def Held (t : Tracked) : Prop :=
  ∀ number ∈ t.seen, ∃ slot ∈ t.receiver.slots.used, slot.sequence = number

theorem Sound.pass (h : t.Sound) (hstarted : t.receiver.started = true)
    (hnone : ∀ slot ∈ t.receiver.slots.used, slot.sequence ≠ t.receiver.expected)
    {packetsLost : Nat} (hlost : packetsLost ≤ uint32Max) :
    (t.pass { t.receiver with expected := t.receiver.expected + 1, packetsLost }).Sound ∧
      (t.pass { t.receiver with expected := t.receiver.expected + 1, packetsLost }).Held := by
  have hheld : (t.pass { t.receiver with
      expected := t.receiver.expected + 1, packetsLost }).Held := by
    intro number hnumber
    obtain ⟨hseen, hne⟩ := List.mem_filter.mp hnumber
    rcases h.known number hseen with hslot | ⟨hsame, -⟩
    · exact hslot
    · exact absurd hsame (by simpa using hne)
  refine ⟨⟨h.stored, ?_, ?_, h.distinct, fun number hnumber => .inl (hheld number hnumber),
    hlost, ?_⟩, hheld⟩
  · intro hnot
    exact absurd (hnot.symm.trans hstarted) (by simp)
  · intro slot hslot
    have hnear := h.near slot hslot
    have hstep := distance_succ_left t.receiver.expected slot.sequence (hnone slot hslot).symm
    show (sequenceDistance (t.receiver.expected + 1) slot.sequence).toNat ≤ _
    have hwindow : (t.pass { t.receiver with
      expected := t.receiver.expected + 1, packetsLost }).receiver.window = t.receiver.window := rfl
    rw [hwindow]
    omega
  · intro hzero
    have hclosed : t.seen = [] := h.closed hzero
    show t.seen.filter _ = []
    rw [hclosed]
    rfl

theorem Sound.started (h : t.Sound) (hmem : slot ∈ t.receiver.slots.used) :
    t.receiver.started = true := by
  by_contra hnot
  rw [(h.idle (by simpa using hnot)).1] at hmem
  exact List.not_mem_nil hmem

theorem Sound.hand_advance (h : t.Sound) (hcell : t.receiver.slots.cells[index]? = some (some slot))
    (hsequence : slot.sequence = t.receiver.expected) :
    (t.pass (t.receiver.hand index slot.packet).advance).Sound ∧
      (t.pass (t.receiver.hand index slot.packet).advance).Held := by
  have hperm := Slots.used_put_none hcell
  have hstarted := h.started (hperm.mem_iff.mpr List.mem_cons_self)
  have hnodup := (hperm.map ReorderSlot.sequence).nodup_iff.mp h.distinct
  refine (h.hand hcell hsequence).pass hstarted ?_ h.lost
  intro other hother heq
  exact (List.nodup_cons.mp hnodup).1
    (List.mem_map.mpr ⟨other, hother, heq.trans hsequence.symm⟩)

theorem u32SaturatingInc_eq {value : Nat} (h : value ≤ uint32Max) :
    u32SaturatingInc value = min uint32Max (value + 1) := by
  unfold u32SaturatingInc
  split
  · omega
  · omega

theorem Sound.skip {flush : Bool} {nowMs : Nat} (h : t.Sound)
    (hmissing : t.receiver.reorderFind t.receiver.expected = none)
    (hgoes : t.receiver.drainWaits flush nowMs = false) :
    (t.pass t.receiver.skip).Sound ∧ (t.pass t.receiver.skip).Held := by
  obtain ⟨slot, hslot⟩ := List.exists_mem_of_ne_nil _ (used_ne_nil_of_not_waits hgoes)
  refine h.pass (h.started hslot) (reorderFind_none hmissing) ?_
  rw [u32SaturatingInc_eq h.lost]
  exact Nat.min_le_left _ _

end Rounds

section Drain

variable {process : Bytes → Status} {flush : Bool} {nowMs : Nat} {t t' : Tracked}
  {rounds : List Round} {status : Status}

section

variable (h : Drains process flush nowMs t rounds t' status)
include h

theorem Drains.sound (hs : t.Sound) :
    t'.Sound ∧ ∀ round ∈ rounds, round.before.Sound := by
  induction h with
  | stop t => exact ⟨hs, by simp⟩
  | failed t index slot hcell hsequence _ => exact ⟨hs.hand hcell hsequence, by simp⟩
  | handed t t' index slot rounds status hcell hsequence _ ih =>
    obtain ⟨hend, hrounds⟩ := ih (hs.hand_advance hcell hsequence).1
    exact ⟨hend, List.forall_mem_cons.mpr ⟨hs, hrounds⟩⟩
  | skipped t t' rounds status hmissing hgoes _ ih =>
    obtain ⟨hend, hrounds⟩ := ih (hs.skip hmissing hgoes).1
    exact ⟨hend, List.forall_mem_cons.mpr ⟨hs, hrounds⟩⟩

theorem Drains.lost (hlost : t.receiver.packetsLost ≤ uint32Max) :
    t'.receiver.packetsLost =
      min uint32Max (t.receiver.packetsLost + rounds.countP Round.skipped) := by
  induction h with
  | stop t => simp [hlost]
  | failed t index slot _ _ _ => simp [Receiver.hand, hlost]
  | handed t t' index slot rounds status _ _ _ ih =>
    rw [ih hlost, List.countP_cons_of_neg (by simp)]
    rfl
  | skipped t t' rounds status _ _ _ ih =>
    have hskip : (t.pass t.receiver.skip).receiver.packetsLost =
        min uint32Max (t.receiver.packetsLost + 1) := u32SaturatingInc_eq hlost
    rw [ih (hskip ▸ Nat.min_le_left _ _), hskip, List.countP_cons_of_pos rfl]
    omega

theorem Drains.unreceived_of_held (hs : t.Sound) (hheld : t.Held) :
    ∀ round ∈ rounds, round.unreceived = round.skipped := by
  induction h with
  | stop t => simp
  | failed t index slot _ _ _ => simp
  | handed t t' index slot rounds status hcell hsequence _ ih =>
    obtain ⟨hsound, hheld'⟩ := hs.hand_advance hcell hsequence
    exact List.forall_mem_cons.mpr ⟨rfl, ih hsound hheld'⟩
  | skipped t t' rounds status hmissing hgoes _ ih =>
    obtain ⟨hsound, hheld'⟩ := hs.skip hmissing hgoes
    refine List.forall_mem_cons.mpr ⟨?_, ih hsound hheld'⟩
    have hunseen : t.receiver.expected ∉ t.seen := by
      intro hseen
      obtain ⟨slot, hslot, heq⟩ := hheld _ hseen
      exact reorderFind_none hmissing slot hslot heq
    simp [Round.unreceived, hunseen]

end

end Drain

end Tracked

/-- The packet of the expected number was handed on and its processing failed, no slot has the
number again, and the drain goes past it. -/
def PastFailed (s : Receiver) (flush : Bool) (nowMs : Nat) : Prop :=
  (∃ last ∈ s.handed.getLast?, sequenceOf last = s.expected) ∧
    s.reorderFind s.expected = none ∧ s.drainWaits flush nowMs = false

namespace Tracked

section Drain

variable {process : Bytes → Status} {flush : Bool} {nowMs : Nat} {t t' : Tracked}
  {rounds : List Round} {status : Status}

theorem Drains.unreceived (h : Drains process flush nowMs t rounds t' status) (hs : t.Sound)
    (hfailed : ¬ t.receiver.PastFailed flush nowMs) :
    ∀ round ∈ rounds, round.unreceived = round.skipped := by
  cases h with
  | stop => simp
  | failed => simp
  | handed _ _ index slot rounds _ hcell hsequence hrest =>
    obtain ⟨hsound, hheld⟩ := hs.hand_advance hcell hsequence
    exact List.forall_mem_cons.mpr ⟨rfl, hrest.unreceived_of_held hsound hheld⟩
  | skipped _ _ rounds _ hmissing hgoes hrest =>
    obtain ⟨hsound, hheld⟩ := hs.skip hmissing hgoes
    refine List.forall_mem_cons.mpr ⟨?_, hrest.unreceived_of_held hsound hheld⟩
    have hunseen : t.receiver.expected ∉ t.seen := by
      intro hseen
      rcases hs.known _ hseen with ⟨slot, hslot, heq⟩ | ⟨-, hlast⟩
      · exact reorderFind_none hmissing slot hslot heq
      · exact hfailed ⟨hlast, hmissing, hgoes⟩
    simp [Round.unreceived, hunseen]

end Drain

section Arrival

variable {t : Tracked} {packet : Bytes}

theorem closeGap_seen (t : Tracked) (distance : Nat) :
    (∀ number ∈ (t.closeGap distance).seen, number ∈ t.seen) ∧
      (t.closeGap distance = t ∨ t.receiver.expected ∉ (t.closeGap distance).seen) := by
  induction distance generalizing t with
  | zero => exact ⟨fun _ h => h, .inl rfl⟩
  | succ distance ih =>
    unfold closeGap
    split
    · obtain ⟨hsub, -⟩ := ih (t.pass t.receiver.skip)
      have hpassed : ∀ number ∈ ((t.pass t.receiver.skip).closeGap distance).seen,
          number ∈ t.seen ∧ number ≠ t.receiver.expected := by
        intro number hnumber
        simpa [pass] using hsub number hnumber
      exact ⟨fun number hnumber => (hpassed number hnumber).1,
        .inr fun hmem => (hpassed _ hmem).2 rfl⟩
    · exact ⟨fun _ h => h, .inl rfl⟩

theorem closeGap_lost (distance : Nat) {s : Receiver} (h : s.packetsLost ≤ uint32Max) :
    (s.closeGap distance).packetsLost ≤ uint32Max := by
  induction distance generalizing s with
  | zero => exact h
  | succ distance ih =>
    unfold Receiver.closeGap
    split
    · refine ih ?_
      show u32SaturatingInc s.packetsLost ≤ uint32Max
      rw [u32SaturatingInc_eq h]
      exact Nat.min_le_left _ _
    · exact h

theorem Sound.drop (h : t.Sound) (packet : Bytes) :
    Sound ⟨(t.receiver.note packet).drop packet, t.seen⟩ :=
  ⟨h.stored, h.idle, h.near, h.distinct, h.known, h.lost, h.closed⟩

/-- The part of the receive path in which a packet may be stored. -/
theorem Sound.store (h : t.Sound) (hstarted : t.receiver.started = true)
    (hwindow : t.receiver.window.val ≠ 0) (nowMs : Nat)
    (hnone : ∀ slot ∈ t.receiver.slots.used, slot.sequence ≠ sequenceOf packet)
    (hnotPassed : ∀ slot ∈ t.receiver.slots.used,
      (sequenceDistance t.receiver.expected (sequenceOf packet)).toNat ≤
        (sequenceDistance t.receiver.expected slot.sequence).toNat + t.receiver.window.val)
    {u : Tracked} (hu : u = (⟨t.receiver.note packet, sequenceOf packet :: t.seen⟩ :
      Tracked).closeGap (sequenceDistance t.receiver.expected (sequenceOf packet)).toNat) :
    ∃ index, u.receiver.reorderFreeSlot = some index ∧ Sound ⟨u.receiver.store index
        ⟨sequenceOf packet, jitterReleaseAt nowMs u.receiver.jitterDelayMs, packet⟩, u.seen⟩ := by
  obtain ⟨hsub, hmovedSeen⟩ := closeGap_seen
    (⟨t.receiver.note packet, sequenceOf packet :: t.seen⟩ : Tracked)
    (sequenceDistance t.receiver.expected (sequenceOf packet)).toNat
  rw [← hu] at hsub hmovedSeen
  have hreceiver : u.receiver = (t.receiver.note packet).closeGap
      (sequenceDistance t.receiver.expected (sequenceOf packet)).toNat := by
    rw [hu, closeGap_receiver]
  obtain ⟨hmoved, hleft⟩ :=
    closeGap_expected (sequenceOf packet) _ (t.receiver.note packet) rfl
  have hlost : u.receiver.packetsLost ≤ uint32Max := by
    rw [hreceiver]
    exact closeGap_lost _ h.lost
  obtain ⟨expected, packetsLost, hgap⟩ := closeGap_eq (t.receiver.note packet)
    (sequenceDistance t.receiver.expected (sequenceOf packet)).toNat
  rw [← hreceiver] at hgap
  have hnote : (sequenceDistance (t.receiver.note packet).expected (sequenceOf packet)).toNat =
      (sequenceDistance t.receiver.expected (sequenceOf packet)).toNat := rfl
  rw [hnote, ← hreceiver, hgap] at hmoved hleft
  replace hmoved : (sequenceDistance t.receiver.expected expected).toNat =
    (sequenceDistance t.receiver.expected (sequenceOf packet)).toNat -
      t.receiver.window.val := hmoved
  have hnear : ∀ slot ∈ t.receiver.slots.used,
      (sequenceDistance expected slot.sequence).toNat ≤ t.receiver.window.val := by
    intro slot hslot
    have hold := h.near slot hslot
    have hpass := hnotPassed slot hslot
    have htrans := distance_trans t.receiver.expected expected slot.sequence
    have hlt := distance_lt expected slot.sequence
    omega
  obtain ⟨index, hfree⟩ := reorderFreeSlot_isSome h.distinct hnear hleft hnone
  have hcell := reorderFreeSlot_some hfree
  obtain ⟨receiver, seen⟩ := u
  simp only at hgap hlost
  subst hgap
  refine ⟨index, hfree, ?_⟩
  have hperm := Slots.used_put_some
    ⟨sequenceOf packet, jitterReleaseAt nowMs t.receiver.jitterDelayMs, packet⟩ hcell
  have hmem := fun other => (hperm.mem_iff (a := other)).trans List.mem_cons
  refine ⟨?_, ?_, ?_, ?_, ?_, hlost, fun hzero => absurd hzero hwindow⟩
  · intro other hother
    rcases (hmem other).mp hother with rfl | hold
    · rfl
    · exact h.stored other hold
  · intro hnot
    exact absurd (hnot.symm.trans hstarted) (by simp)
  · intro other hother
    rcases (hmem other).mp hother with rfl | hold
    · exact hleft
    · exact hnear other hold
  · refine (hperm.map _).nodup_iff.mpr (List.nodup_cons.mpr ⟨?_, h.distinct⟩)
    intro hmemSequence
    obtain ⟨other, hother, heq⟩ := List.mem_map.mp hmemSequence
    exact hnone other hother heq
  · intro number hnumber
    rcases List.mem_cons.mp (hsub number hnumber) with rfl | hseen
    · exact .inl ⟨_, (hmem _).mpr (.inl rfl), rfl⟩
    · rcases h.known number hseen with ⟨other, hother, rfl⟩ | ⟨rfl, hlast⟩
      · exact .inl ⟨other, (hmem other).mpr (.inr hother), rfl⟩
      · rcases hmovedSeen with hsame | hpassed
        · have hkept : t.receiver.expected = expected :=
            congrArg (fun u : Tracked => u.receiver.expected) hsame.symm
          exact .inr ⟨hkept, hlast⟩
        · exact absurd hnumber hpassed

/-- An arrival in a stream that has started. -/
theorem Sound.arriveStarted (h : t.Sound) (hstarted : t.receiver.started = true)
    (nowMs : Nat) (hpasses : ¬ t.receiver.PassesOver (sequenceOf packet)) :
    (t.arrive packet nowMs).1.Sound := by
  unfold arrive
  split
  · next hzero =>
    have hclosed := h.closed hzero
    exact ⟨h.stored, h.idle, h.near, h.distinct, by simp [hclosed], h.lost, h.closed⟩
  · next hwindow =>
    split
    · exact h
    · have hnote : (t.receiver.note packet).started = true := hstarted
      have hbegin : (t.receiver.note packet).beginAt (sequenceOf packet) =
          t.receiver.note packet := by
        rw [beginAt, if_pos hnote]
      simp only [hnote, Bool.true_and, hbegin]
      split
      · exact h.drop packet
      · next hbefore =>
        have hahead : sequenceBefore (sequenceOf packet) (t.receiver.note packet).expected =
            false := by
          simpa using hbefore
        split
        · next hfind =>
          obtain ⟨index, hindex⟩ := Option.isSome_iff_exists.mp hfind
          obtain ⟨slot, hcell, hsequence⟩ := reorderFind_some hindex
          have hslot := (Slots.used_put_none hcell).mem_iff.mpr List.mem_cons_self
          refine ⟨h.stored, fun hnot => absurd (hnot.symm.trans hstarted) (by simp),
            h.near, h.distinct, ?_, h.lost, fun hzero => absurd hzero hwindow⟩
          intro number hnumber
          rcases List.mem_cons.mp hnumber with rfl | hseen
          · exact .inl ⟨slot, hslot, hsequence⟩
          · exact h.known number hseen
        · next hfind =>
          have hnone : ∀ slot ∈ t.receiver.slots.used, slot.sequence ≠ sequenceOf packet := by
            have hfind' : (t.receiver.note packet).reorderFind (sequenceOf packet) = none := by
              simpa using hfind
            exact reorderFind_none hfind'
          have hnotPassed : ∀ slot ∈ t.receiver.slots.used,
              (sequenceDistance t.receiver.expected (sequenceOf packet)).toNat ≤
                (sequenceDistance t.receiver.expected slot.sequence).toNat +
                  t.receiver.window.val := by
            intro slot hslot
            by_contra hpass
            exact hpasses ⟨hahead, slot, hslot, by omega⟩
          obtain ⟨index, hfree, hsound⟩ :=
            h.store hstarted hwindow nowMs hnone hnotPassed rfl
          have hfree' : (closeGap ⟨t.receiver.note packet, sequenceOf packet :: t.seen⟩
              (sequenceDistance (t.receiver.note packet).expected
                (sequenceOf packet)).toNat).receiver.reorderFreeSlot = some index := hfree
          simp only [hfree']
          exact hsound

/-- **An arrival that passes over no waiting packet.** -/
theorem Sound.arrive (h : t.Sound) (packet : Bytes) (nowMs : Nat)
    (hpasses : ¬ t.receiver.PassesOver (sequenceOf packet)) :
    (t.arrive packet nowMs).1.Sound := by
  by_cases hstarted : t.receiver.started = true
  · exact h.arriveStarted hstarted nowMs hpasses
  · have hidle : t.receiver.started = false := by simpa using hstarted
    obtain ⟨hused, hseen⟩ := h.idle hidle
    by_cases hopen : t.receiver.window.val ≠ 0 ∧ admits packet = .ok ()
    · have hbegun : Sound ⟨{ t.receiver with expected := sequenceOf packet, started := true },
          t.seen⟩ :=
        ⟨h.stored, by simp, by simp [hused], h.distinct, by simp [hseen], h.lost, h.closed⟩
      have hself : sequenceBefore (sequenceOf packet) (sequenceOf packet) = false := by
        simp [sequenceBefore]
      have heq : t.arrive packet nowMs =
          Tracked.arrive ⟨{ t.receiver with expected := sequenceOf packet, started := true },
            t.seen⟩ packet nowMs := by
        simp [Tracked.arrive, hopen.1, hopen.2, Receiver.note, Receiver.beginAt, hidle, hself]
      rw [heq]
      refine hbegun.arriveStarted rfl nowMs ?_
      intro hpass
      obtain ⟨-, slot, hslot, -⟩ := hpass
      exact absurd hslot (by simp [hused])
    · unfold Tracked.arrive
      split
      · exact ⟨h.stored, h.idle, h.near, h.distinct, by simp [hseen], h.lost, h.closed⟩
      · next hwindow =>
        split
        · exact h
        · next hadmits => exact absurd ⟨hwindow, hadmits⟩ hopen

end Arrival

end Tracked

/-- What must not happen for losses to be counted right: an arrival that moves the window past a
waiting packet, and a drain that goes past the number of a packet whose processing failed. -/
def Careful (t : Tracked) : Call → Prop
  | .event event =>
    (match event with
      | .packet packet _ _ => ¬ t.receiver.PassesOver (sequenceOf packet)
      | _ => True) ∧
    ((t.prepare event).2 = true →
      ¬ (t.prepare event).1.receiver.PastFailed event.drainArgs.2.1 event.drainArgs.2.2)
  | _ => True

namespace Tracked

theorem Sound.prepare {t : Tracked} (h : t.Sound) {event : Event}
    (hcareful : Careful t (.event event)) : (t.prepare event).1.Sound := by
  cases event with
  | packet packet nowMs process => exact h.arrive packet nowMs hcareful.1
  | tick nowMs process => exact h
  | flush process => exact h
  | setJitterDelay delayMs =>
    exact ⟨h.stored, h.idle, h.near, h.distinct, h.known, h.lost, h.closed⟩

theorem Sound.clear {t : Tracked} (h : t.Sound) : Sound ⟨t.receiver.clearReceiveReorder, []⟩ := by
  have hempty : t.receiver.clearReceiveReorder.slots.used = [] := Slots.empty_used
  exact ⟨by simp [hempty], by simp [hempty], by simp [hempty], by simp [hempty], by simp, h.lost,
    fun _ => rfl⟩

theorem Sound.next {t : Tracked} (h : t.Sound) {call : Call} (hcareful : Careful t call) :
    (t.next call).Sound := by
  cases call with
  | event event =>
    have hprepared := h.prepare hcareful
    simp only [Tracked.next]
    split
    · exact ((trace_spec _ _ _ _).1.sound hprepared).1
    · exact hprepared
  | clear => exact h.clear
  | setWindow window =>
    simp only [Tracked.next, setReceiveReorderWindow]
    split
    · have hclear := h.clear
      have hempty : t.receiver.clearReceiveReorder.slots.used = [] := Slots.empty_used
      exact ⟨hclear.stored, hclear.idle, by simp [hempty], hclear.distinct, hclear.known,
        hclear.lost, fun _ => rfl⟩
    · exact h

end Tracked

/-- A drain accounts for what it goes past: it ends; what it counts as lost, in a counter that
stops at its last number, was not received; and a flush never goes past a number that a waiting
packet is behind. -/
structure LossExact (t : Tracked) (process : Bytes → Status) (flush : Bool) (nowMs : Nat) :
    Prop where
  returns : ∃ fuel, drainLoop process flush nowMs fuel t.receiver =
    some (t.receiver.drain process flush nowMs)
  lost : (t.receiver.drain process flush nowMs).1.packetsLost =
    min uint32Max (t.receiver.packetsLost + (t.trace process flush nowMs).1.countP Round.unreceived)
  ahead : flush = true → ∀ round ∈ (t.trace process flush nowMs).1,
    ∀ slot ∈ round.before.receiver.slots.used,
      sequenceBefore slot.sequence round.before.receiver.expected = false

/-- **Losses are counted right** in every drain of a run of careful calls. -/
theorem losses_counted {window : Fin reorderQueueCap} {jitterDelayMs : Nat} {t : Tracked}
    (h : Reach Tracked.next Careful (Tracked.start window jitterDelayMs) t) (event : Event)
    (hcareful : Careful t (.event event)) (hdrains : (t.prepare event).2 = true) :
    LossExact (t.prepare event).1 event.drainArgs.1 event.drainArgs.2.1
      event.drainArgs.2.2 := by
  have hsound : t.Sound :=
    h.invariant (Tracked.start_sound window jitterDelayMs) fun _ _ hs hok => hs.next hok
  have hprepared := hsound.prepare hcareful
  obtain ⟨htrace, hend⟩ := Tracked.trace_spec (t.prepare event).1 event.drainArgs.1
    event.drainArgs.2.1 event.drainArgs.2.2
  have hunreceived := htrace.unreceived hprepared (hcareful.2 hdrains)
  refine ⟨⟨drainFuel, drain_eq _ _ _ _⟩, ?_, ?_⟩
  · rw [← congrArg Prod.fst hend, htrace.lost hprepared.lost]
    congr 2
    exact List.countP_congr fun round hround => by rw [hunreceived round hround]
  · intro _ round hround slot hslot
    have hnear := ((htrace.sound hprepared).2 round hround).near slot hslot
    have hwindow := round.before.receiver.window.isLt
    simp only [reorderQueueCap] at hwindow
    rw [← Bool.not_eq_true, sequenceBefore_iff]
    omega

/-- Window 2: packet 10 is handed on, packet 13 finds the window at 11, and a flush goes past 11
and 12. -/
def gapThenFlush : List Call :=
  [.event (arrival 10), .event (arrival 13), .event (.flush fun _ => .ok)]

theorem losses_counted_gap :
    LossExact ((gapThenFlush.take 2).foldl Tracked.next (Tracked.start ⟨2, by decide⟩ 0))
        (fun _ => .ok) true 0 ∧
      (gapThenFlush.foldl Tracked.next
        (Tracked.start ⟨2, by decide⟩ 0)).receiver.packetsLost = 2 := by
  have hcareful : ∀ t : Tracked, ∀ e : Event, (match e with
        | .packet packet _ _ => ¬ t.receiver.PassesOver (sequenceOf packet)
        | _ => True) →
      (∀ last ∈ (t.prepare e).1.receiver.handed.getLast?,
        sequenceOf last ≠ (t.prepare e).1.receiver.expected) → Careful t (.event e) := by
    intro t e hpasses hlast
    refine ⟨hpasses, fun _ hfailed => ?_⟩
    obtain ⟨⟨last, hmem, heq⟩, -⟩ := hfailed
    exact hlast last hmem heq
  have hreach : Reach Tracked.next Careful (Tracked.start ⟨2, by decide⟩ 0)
      ((gapThenFlush.take 2).foldl Tracked.next (Tracked.start ⟨2, by decide⟩ 0)) := by
    refine Reach.start.run ⟨?_, ?_, trivial⟩
    · exact hcareful _ _ (by simp only [PassesOver, arrival]; decide) (by decide)
    · exact hcareful _ _ (by simp only [PassesOver, arrival]; decide) (by decide)
  have hlast := hcareful ((gapThenFlush.take 2).foldl Tracked.next
    (Tracked.start ⟨2, by decide⟩ 0)) (.flush fun _ => .ok) trivial (by decide)
  exact ⟨losses_counted hreach (.flush fun _ => .ok) hlast (by decide), by decide⟩

/-- Window 2, twice: packet 10 fails, packet 11 waits, and the flush counts 10 as lost; packet 20
moves the window past packet 12, and the flush starts at 18 with packet 12 behind it. -/
theorem failed_counted_lost :
    (¬ ∀ t, Reach Tracked.next (fun _ _ => True) (Tracked.start ⟨2, by decide⟩ 0) t →
      ∀ event, (t.prepare event).2 = true →
        LossExact (t.prepare event).1 event.drainArgs.1 event.drainArgs.2.1
          event.drainArgs.2.2) ∧
    ¬ LossExact (([10, 12, 20].map fun number => Call.event (arrival number)).foldl Tracked.next
      (Tracked.start ⟨2, by decide⟩ 0)) (fun _ => .ok) true 0 := by
  refine ⟨fun h => ?_, fun h => ?_⟩
  · have hreach := Reach.start.run (show Permitted Tracked.next (fun _ _ => True)
      (Tracked.start ⟨2, by decide⟩ 0)
      [.event (.packet (bareRtp 10) 0 fun _ => .state), .event (arrival 11)] from
        ⟨trivial, trivial, trivial⟩)
    have hlost := (h _ hreach (.flush fun _ => .ok) (by decide)).lost
    revert hlost
    decide
  · obtain ⟨rest, hrest⟩ := Tracked.trace_head
      (([10, 12, 20].map fun number => Call.event (arrival number)).foldl
        Tracked.next (Tracked.start ⟨2, by decide⟩ 0)) (fun _ => .ok) true 0 (by decide)
      (by decide)
    have hahead := h.ahead rfl _ (by rw [hrest]; exact List.mem_cons_self)
    revert hahead
    decide

end Receiver

end Dcc.Voice
