import Dcc.Lib.Reach
import Dcc.Gateway.Session

/-!
# When a connection is declared dead

The heartbeat task gives a connection up when it wakes and the flag `waiting_ack` is
still set.  The flag has no time: the timer sets it one interval before it looks again,
but the answer to a heartbeat request of the server sets it at any moment.

* `Beating` — what holds of the heartbeats of a connection;
* `step_beating` — every move keeps it, as long as the timer does not fire on a fresh
  answer to the server (`AnswersOld`);
* `zombie_sound` — then a connection is given up only when a heartbeat of at least one
  interval ago was not acknowledged;
* `zombie_unsound` — a heartbeat request just before the timer fires ends a healthy
  connection.
-/

namespace Dcc.Gateway

open Machine

/-- The heartbeat interval of a connection. -/
def Live.intervalMs (live : Live) : Nat := live.session.heartbeat.intervalMs

/-- When the connection was declared dead, some heartbeat of at least one interval ago was
not acknowledged. -/
def Live.Sound (live : Live) : Prop :=
  ∀ now beats, live.verdict = some (now, beats) →
    ∃ beat ∈ beats, beat.acked = false ∧ beat.sentAt + live.intervalMs ≤ now

/-- When the timer fires on a set flag, a heartbeat of the timer is not acknowledged, or
every answer to the server that is not acknowledged was sent at least one interval ago. -/
def AnswersOld (live : Live) : Event → Prop
  | .wake =>
    ∀ wakeAt, live.beater = .sleeping wakeAt → wakeAt ≤ live.now →
    live.session.heartbeat.waitingAck = true →
    (∃ beat ∈ live.beats, beat.requested = false ∧ beat.acked = false) ∨
    (live.unsent = false ∧ ∀ beat ∈ live.beats, beat.requested = true → beat.acked = false →
      beat.sentAt + live.intervalMs ≤ live.now)
  | _ => True

/-- The heartbeats of a connection: none is from the future, those of the timer are one
interval older than its next look, and a set flag has a heartbeat behind it. -/
structure Beating (live : Live) : Prop where
  past : ∀ beat ∈ live.beats, beat.sentAt ≤ live.now
  due : ∀ wakeAt, live.beater = .sleeping wakeAt →
    ∀ beat ∈ live.beats, beat.requested = false → beat.sentAt + live.intervalMs ≤ wakeAt
  waiting : ∀ wakeAt, live.beater = .sleeping wakeAt → live.session.heartbeat.waitingAck = true →
    live.unsent = true ∨ ∃ beat ∈ live.beats, beat.acked = false
  sound : live.Sound

/-! ## What the handlers do to the heartbeat -/

theorem updateSeq_heartbeat (session : Session) (payload : Payload) :
    (updateSeq session payload).heartbeat.intervalMs = session.heartbeat.intervalMs ∧
      (updateSeq session payload).heartbeat.failed = session.heartbeat.failed ∧
      (updateSeq session payload).heartbeat.waitingAck = session.heartbeat.waitingAck := by
  unfold updateSeq
  split <;> exact ⟨rfl, rfl, rfl⟩

theorem handleDispatch_heartbeat (session : Session) (payload : Payload) (env : Handling) :
    (handleDispatch session payload env).1.heartbeat = session.heartbeat := by
  unfold handleDispatch
  split
  · rfl
  · split
    · split <;> rfl
    · rfl
    · rfl

theorem handlePayload_heartbeat (session : Session) (payload : Payload) (env : Handling) :
    (handlePayload session payload env).1.heartbeat.intervalMs = session.heartbeat.intervalMs ∧
      (handlePayload session payload env).1.heartbeat.failed = session.heartbeat.failed ∧
      (((handlePayload session payload env).2 = .reply) ∨ (payload.op = some 11 ∧
         (handlePayload session payload env).1.heartbeat.waitingAck = false ∧
         (handlePayload session payload env).2 = .done .ok) ∨
       (payload.op ≠ some 11 ∧ (handlePayload session payload env).1.heartbeat.waitingAck =
           session.heartbeat.waitingAck ∧
         (handlePayload session payload env).2 ≠ .reply)) := by
  obtain ⟨hinterval, hfailed, hwaiting⟩ := updateSeq_heartbeat session payload
  unfold handlePayload
  cases hop : payload.op with
  | none => exact ⟨hinterval, hfailed, .inr (.inr ⟨by simp, hwaiting, by simp⟩)⟩
  | some op =>
    simp only
    by_cases h0 : op = 0
    · have hbeat := handleDispatch_heartbeat (updateSeq session payload) payload env
      rw [if_pos h0]
      split
      · rename_i after hafter
        rw [hafter] at hbeat
        simp only at hbeat
        rw [hbeat]
        exact ⟨hinterval, hfailed, .inr (.inr ⟨by simp [h0], hwaiting, by simp⟩)⟩
      · rename_i after status _ hafter
        rw [hafter] at hbeat
        simp only at hbeat
        rw [hbeat]
        exact ⟨hinterval, hfailed, .inr (.inr ⟨by simp [h0], hwaiting, by simp⟩)⟩
    · rw [if_neg h0]
      by_cases h1 : op = 1
      · rw [if_pos h1]
        exact ⟨hinterval, hfailed, .inl rfl⟩
      · rw [if_neg h1]
        by_cases h7 : op = 7
        · rw [if_pos h7]
          exact ⟨hinterval, hfailed, .inr (.inr ⟨by simp [h7], hwaiting, by simp⟩)⟩
        · rw [if_neg h7]
          by_cases h9 : op = 9
          · rw [if_pos h9]
            exact ⟨hinterval, hfailed, .inr (.inr ⟨by simp [h9], hwaiting, by simp⟩)⟩
          · rw [if_neg h9]
            by_cases h11 : op = 11
            · rw [if_pos h11]
              exact ⟨hinterval, hfailed, .inr (.inl ⟨by rw [h11], rfl, rfl⟩)⟩
            · rw [if_neg h11]
              exact ⟨hinterval, hfailed, .inr (.inr ⟨by simp [h11], hwaiting, by simp⟩)⟩

theorem finalizeReceive_heartbeat (session : Session) (flags : Flags) (status : Status) :
    (finalizeReceive session flags status).1.heartbeat = session.heartbeat := by
  unfold finalizeReceive
  repeat' split
  all_goals rfl

/-! ## One move -/

variable {live after : Live}

theorem Beating.frame (h : Beating live) (hnow : live.now ≤ after.now)
    (hbeats : after.beats = live.beats) (hbeater : after.beater = live.beater)
    (hunsent : after.unsent = live.unsent) (hverdict : after.verdict = live.verdict)
    (hbeat : after.session.heartbeat = live.session.heartbeat) : Beating after where
  past := by
    intro beat hmem
    exact Nat.le_trans (h.past beat (hbeats ▸ hmem)) hnow
  due := by
    intro wakeAt hsleep beat hmem hrequested
    rw [Live.intervalMs, hbeat]
    exact h.due wakeAt (hbeater ▸ hsleep) beat (hbeats ▸ hmem) hrequested
  waiting := by
    intro wakeAt hsleep hflag
    rw [hunsent, hbeats]
    exact h.waiting wakeAt (hbeater ▸ hsleep) (hbeat ▸ hflag)
  sound := by
    intro now beats hsome
    rw [Live.intervalMs, hbeat]
    exact h.sound now beats (hverdict ▸ hsome)

theorem wake_beating (h : Beating live) (hfair : AnswersOld live .wake) : Beating live.wake := by
  unfold Live.wake
  cases hbeater : live.beater with
  | sending => exact h
  | ended => exact h
  | sleeping wakeAt =>
    simp only
    by_cases hearly : live.now < wakeAt
    · rw [if_pos hearly]
      exact h
    · rw [if_neg hearly]
      by_cases hflag : live.session.heartbeat.waitingAck = true
      · rw [if_pos hflag]
        refine ⟨h.past, by simp [Live.beatFails], by simp [Live.beatFails], ?_⟩
        intro now beats hsome
        obtain ⟨rfl, rfl⟩ : live.now = now ∧ live.beats = beats := by simpa using hsome
        -- a heartbeat of the timer was sent before its last sleep
        have htimer : ∀ beat ∈ live.beats, beat.requested = false →
            beat.sentAt + live.intervalMs ≤ live.now := by
          intro beat hmem hrequested
          have hdue := h.due wakeAt hbeater beat hmem hrequested
          omega
        rcases hfair wakeAt hbeater (Nat.le_of_not_lt hearly) hflag with
          ⟨beat, hmem, hrequested, hacked⟩ | ⟨hsent, hold⟩
        · exact ⟨beat, hmem, hacked, htimer beat hmem hrequested⟩
        · rcases h.waiting wakeAt hbeater hflag with hunsent | ⟨beat, hmem, hacked⟩
          · simp [hsent] at hunsent
          · refine ⟨beat, hmem, hacked, ?_⟩
            cases hrequested : beat.requested with
            | false => exact htimer beat hmem hrequested
            | true => exact hold beat hmem hrequested hacked
      · rw [if_neg hflag]
        exact ⟨h.past, by simp, by simp, h.sound⟩

theorem beatSent_beating (h : Beating live) (status : Status) : Beating (live.beatSent status) := by
  unfold Live.beatSent
  cases hbeater : live.beater with
  | sleeping wakeAt => exact h
  | ended => exact h
  | sending =>
    simp only
    by_cases hsent : sendText live.wsOpen status = .ok
    · rw [if_pos hsent]
      refine ⟨?_, ?_, ?_, h.sound⟩
      · intro beat hmem
        rcases List.mem_cons.mp hmem with rfl | hold
        · exact Nat.le_refl _
        · exact h.past beat hold
      · intro wakeAt hsleep beat hmem hrequested
        obtain rfl : live.now + live.session.heartbeat.intervalMs = wakeAt := by
          simpa using hsleep
        rcases List.mem_cons.mp hmem with rfl | hold
        · exact Nat.le_refl _
        · exact Nat.add_le_add_right (h.past beat hold) _
      · intro wakeAt _ _
        exact .inr ⟨⟨live.now, false, false⟩, List.mem_cons_self, rfl⟩
    · rw [if_neg hsent]
      exact ⟨h.past, by simp [Live.beatFails], by simp [Live.beatFails], h.sound⟩

theorem mem_ackBeats {payload : Payload} {beats : List Beat} {beat : Beat}
    (h : beat ∈ ackBeats payload beats) :
    ∃ old ∈ beats, beat.sentAt = old.sentAt ∧ beat.requested = old.requested := by
  unfold ackBeats at h
  split at h
  · obtain ⟨old, hold, rfl⟩ := List.mem_map.mp h
    exact ⟨old, hold, rfl, rfl⟩
  · exact ⟨beat, h, rfl, rfl⟩

theorem Beating.message (h : Beating live) (payload : Payload) {session : Session}
    (receiver : Receiver) {unsent : Bool}
    (hinterval : session.heartbeat.intervalMs = live.intervalMs)
    (hwaiting : session.heartbeat.waitingAck = true → unsent = true ∨
      (payload.op ≠ some 11 ∧ live.session.heartbeat.waitingAck = true ∧ unsent = live.unsent)) :
    Beating
      { live with
        session := session
        receiver := receiver
        beats := ackBeats payload live.beats
        unsent := unsent } where
  past := by
    intro beat hmem
    obtain ⟨old, hold, hsent, _⟩ := mem_ackBeats hmem
    rw [hsent]
    exact h.past old hold
  due := by
    intro wakeAt hsleep beat hmem hrequested
    obtain ⟨old, hold, hsent, hsame⟩ := mem_ackBeats hmem
    rw [Live.intervalMs, hinterval, hsent]
    exact h.due wakeAt hsleep old hold (hsame ▸ hrequested)
  waiting := by
    intro wakeAt hsleep hset
    rcases hwaiting hset with hunsent | ⟨hop, hold, hunsent⟩
    · exact .inl hunsent
    · have hbeats : ackBeats payload live.beats = live.beats := by rw [ackBeats, if_neg hop]
      simp only [hunsent, hbeats]
      exact h.waiting wakeAt hsleep hold
  sound := by
    intro now beats hsome
    rw [Live.intervalMs, hinterval]
    exact h.sound now beats hsome

theorem handle_beating (h : Beating live) (payload : Payload) (env : Handling) :
    Beating (live.handle payload env) := by
  obtain ⟨hinterval, _, hflag⟩ := handlePayload_heartbeat
    { live.session with client := live.session.client.record payload env.memory } payload env
  unfold Live.handle
  simp only
  split
  · rename_i session hhandled
    rw [hhandled] at hinterval
    exact h.message payload .replying hinterval fun _ => .inl rfl
  all_goals
    rename_i session _ hhandled
    rw [hhandled] at hinterval hflag
    refine h.message payload _ hinterval ?_
    intro hset
    rcases hflag with hreply | ⟨_, hclear, _⟩ | ⟨hop, hsame, _⟩
    · cases hreply
    · rw [hset] at hclear
      cases hclear
    · exact .inr ⟨hop, hsame.symm.trans hset, rfl⟩

theorem receive_beating (h : Beating live) (received : Received) (flags : Flags) :
    Beating (live.receive received flags) := by
  unfold Live.receive
  cases received with
  | message payload env => exact handle_beating h payload env
  | closed code =>
    simp only
    repeat' split
    all_goals exact h.frame (Nat.le_refl _) rfl rfl rfl rfl rfl
  | failed status =>
    simp only
    split
    all_goals exact h.frame (Nat.le_refl _) rfl rfl rfl rfl rfl
  | _ => exact h.frame (Nat.le_refl _) rfl rfl rfl rfl rfl

theorem replySent_beating (h : Beating live) (status : Status) :
    Beating (live.replySent status) := by
  unfold Live.replySent
  split
  · refine ⟨?_, ?_, ?_, h.sound⟩
    · intro beat hmem
      rcases List.mem_cons.mp hmem with rfl | hold
      · exact Nat.le_refl _
      · exact h.past beat hold
    · intro wakeAt hsleep beat hmem hrequested
      rcases List.mem_cons.mp hmem with rfl | hold
      · cases hrequested
      · exact h.due wakeAt hsleep beat hold hrequested
    · intro wakeAt _ _
      exact .inr ⟨⟨live.now, true, false⟩, List.mem_cons_self, rfl⟩
  · exact h.frame (Nat.le_refl _) rfl rfl rfl rfl rfl

theorem join_beating (h : Beating live) (flags : Flags) (status : Status) :
    Beating (live.join flags status) := by
  have hbeat := finalizeReceive_heartbeat
    { live.session with heartbeatFailed := live.session.heartbeat.failed } flags status
  refine ⟨h.past, by simp [Live.join], by simp [Live.join], ?_⟩
  intro now beats hsome
  have hinterval : (live.join flags status).intervalMs = live.intervalMs :=
    congrArg Heartbeat.intervalMs hbeat
  rw [hinterval]
  exact h.sound now beats hsome

/-- **Every move keeps the heartbeats in order**, as long as the timer does not fire on a
fresh answer to the server. -/
theorem step_beating {event : Event} (h : Beating live) (hfair : AnswersOld live event) :
    Beating (step live event) := by
  cases event with
  | elapse ms => exact h.frame (Nat.le_add_right _ _) rfl rfl rfl rfl rfl
  | wake => exact wake_beating h hfair
  | beatSent status => exact beatSent_beating h status
  | receive received flags =>
    simp only [step]
    split
    · exact receive_beating h received flags
    · exact h
  | replySent status =>
    simp only [step]
    split
    · exact replySent_beating h status
    · exact h
  | interrupt =>
    simp only [step]
    split
    · exact h.frame (Nat.le_refl _) rfl rfl rfl rfl rfl
    · exact h
  | join flags =>
    simp only [step]
    split
    · exact join_beating h flags _
    · exact h

theorem start_beating (client : Client) (resume : Bool) (intervalMs jitterMs : Nat) :
    Beating (Live.start client resume intervalMs jitterMs) where
  past := by simp [Live.start]
  due := by simp [Live.start]
  waiting := by simp [Live.start, sessionInit]
  sound := by simp [Live.Sound, Live.start]

/-! ## Whole connections -/

/-- **A connection is declared dead with reason.**  In every course of a connection in which
the timer never fires on an answer to the server that is younger than one interval, the
heartbeat task gives the connection up only when some heartbeat that was sent at least one
interval before was not acknowledged. -/
theorem zombie_sound (client : Client) (resume : Bool) (intervalMs jitterMs : Nat) {live : Live}
    (h : Reach step AnswersOld (Live.start client resume intervalMs jitterMs) live) :
    live.Sound := by
  have hbeating : Beating live :=
    h.invariant (start_beating client resume intervalMs jitterMs) fun _ _ hlive hfair =>
      step_beating hlive hfair
  exact hbeating.sound

/-- A message with nothing but its opcode. -/
def bareMessage (op : Int) : Received :=
  .message ⟨some op, none, none, none, none, none⟩ ⟨⟨true, true⟩, .ok, 0⟩

/-- Two heartbeats of the timer, the first one acknowledged and the second one not. -/
theorem zombie_sound_missed_ack :
    Live.Sound ([.elapse 1000, .wake, .beatSent .ok, .elapse 10,
      .receive (bareMessage 11) Flags.clear, .elapse 41240, .wake, .beatSent .ok, .elapse 41250,
      .wake].foldl step (Live.start (Client.new none) false 41250 1000)) := by
  refine zombie_sound (Client.new none) false 41250 1000 (Reach.run Reach.start ?_)
  refine ⟨trivial, ?_, trivial, trivial, trivial, trivial, ?_, trivial, trivial, ?_, trivial⟩
  · intro _ _ _ hflag
    cases hflag
  · intro _ _ _ hflag
    cases hflag
  · intro _ _ _ _
    exact .inl ⟨⟨42250, false, false⟩, by decide, rfl, rfl⟩

/-- The server asks for a heartbeat one millisecond before the timer fires, with every
heartbeat acknowledged until then: the connection is given up. -/
theorem zombie_unsound :
    ¬ Live.Sound ([.elapse 1000, .wake, .beatSent .ok, .elapse 10,
      .receive (bareMessage 11) Flags.clear, .elapse 41239,
      .receive (bareMessage 1) Flags.clear, .replySent .ok, .elapse 1,
      .wake].foldl step (Live.start (Client.new none) false 41250 1000)) := by
  intro hsound
  obtain ⟨beat, hmem, hacked, hold⟩ := hsound 42250
    [⟨42249, true, false⟩, ⟨1000, false, true⟩] rfl
  rcases List.mem_cons.mp hmem with rfl | hmem
  · exact absurd hold (by decide)
  · rcases List.mem_singleton.mp hmem with rfl
    cases hacked

end Dcc.Gateway
