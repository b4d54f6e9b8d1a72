import Dcc.Gateway.Runtime

/-!
# What a RESUME says belongs to one session

The client keeps a session id, a resume URL and a sequence number, and different
handlers write them: every message with a number writes the sequence number, READY
writes the id and, if it has one, the URL.  `Tracker` records what the server told; the
stored values are compared with it.

* `Stored` — the three values belong to the session of the last READY;
* `handlePayload_keeps` — an orderly message keeps this;
* `resume_coherent` — in every run, what is stored and every RESUME belong to one
  session, as long as the messages are orderly;
* `resume_mixes_sessions` — a READY without a URL leaves the URL of another session.
-/

namespace Dcc.Gateway

/-! ## The stored values -/

/-- The stored id, URL and sequence number are those of the session of the last READY, or
none of them is there. -/
structure Stored (client : Client) : Prop where
  known : isText client.sessionId = true → ∃ info, client.tracker.current = some info ∧
    info.sessionId = client.sessionId ∧
    (client.hasSeq = true → info.lastSeq = some client.seq) ∧
    (isText client.resumeUrl = true → info.resumeUrl = client.resumeUrl) ∧
    (isText client.resumeUrl = false → isText info.resumeUrl = false)
  blank : isText client.sessionId = false → isText client.resumeUrl = false ∧ client.hasSeq = false

/-- The values are stored as long as the messages are orderly. -/
def StoredWell (client : Client) : Prop := client.tracker.orderly = true → Stored client

variable {client after : Client}

theorem Stored.congr (h : Stored client) (hid : after.sessionId = client.sessionId)
    (hurl : after.resumeUrl = client.resumeUrl) (hseq : after.seq = client.seq)
    (hhas : after.hasSeq = client.hasSeq)
    (hcurrent : after.tracker.current = client.tracker.current) : Stored after := by
  constructor
  · rw [hid, hurl, hseq, hhas, hcurrent]
    exact h.known
  · rw [hid, hurl, hhas]
    exact h.blank

theorem clearResume_stored (client : Client) : Stored (clearResume client) := by
  constructor <;> simp [clearResume, isText]

theorem takeReconnectRequest_storedWell (h : StoredWell client) (flags : Flags) :
    StoredWell (takeReconnectRequest client flags).1 := by
  unfold takeReconnectRequest
  split
  · exact h
  · intro _
    exact clearResume_stored client

theorem nextForClose_storedWell (h : StoredWell client) (code : Nat) :
    StoredWell (nextForClose client code).1 := by
  unfold nextForClose
  split
  all_goals first
    | exact h
    | exact fun _ => clearResume_stored client
    | exact fun horderly => (h horderly).congr rfl rfl rfl rfl rfl

theorem takeDelay_storedWell (h : StoredWell client) : StoredWell (takeDelay client) :=
  fun horderly => (h horderly).congr rfl rfl rfl rfl rfl

/-! ## One message -/

theorem storeReady_stored (memory : ReadyMemory) {sessionId resumeUrl : Option Bytes}
    {seq : UInt64} (hid : isText sessionId = true) (hmemory : memory.sessionId = true)
    (hmemory' : memory.resumeUrl = true) (hseq : client.seq = seq)
    (hurl : isText resumeUrl = true ∨ isText client.resumeUrl = false)
    (hcurrent : client.tracker.current = some ⟨sessionId, resumeUrl, some seq⟩) :
    (storeReady client memory sessionId resumeUrl).2 = .ok ∧
      isText (storeReady client memory sessionId resumeUrl).1.sessionId = true ∧
      Stored (storeReady client memory sessionId resumeUrl).1 := by
  by_cases htext : isText resumeUrl = true
  · simp only [storeReady, hid, hmemory, htext, hmemory', Bool.true_eq_false, if_false]
    refine ⟨trivial, trivial, ?_⟩
    constructor
    · intro _
      refine ⟨_, hcurrent, rfl, fun _ => congrArg some hseq.symm, fun _ => rfl, ?_⟩
      intro hnone
      simp [htext] at hnone
    · intro hnone
      simp [hid] at hnone
  · have hold : isText client.resumeUrl = false := hurl.resolve_left htext
    have hnone : isText resumeUrl = false := by simpa using htext
    simp only [storeReady, hid, hmemory, hnone, Bool.true_eq_false, if_false, if_true]
    refine ⟨trivial, trivial, ?_⟩
    constructor
    · intro _
      refine ⟨_, hcurrent, rfl, fun _ => congrArg some hseq.symm, ?_, fun _ => hnone⟩
      intro hsome
      simp [hold] at hsome
    · intro hempty
      simp [hid] at hempty

/-- The session that a message is handled in: the record has the message. -/
def Session.recorded (session : Session) (payload : Payload) (memory : ReadyMemory) : Session :=
  { session with client := session.client.record payload memory }

/-- What a message means for the resume: the values stay stored, and while the connection
belongs to a session, its id is stored. -/
def Keeps (client : Client) : Prop :=
  Stored client ∧ (client.tracker.joined = true → isText client.sessionId = true)

section Message

variable {session : Session} {payload : Payload} {env : Handling}

theorem updateSeq_keeps (h : Keeps session.client) (hready : payload.isReady = false)
    (horderly : orderlyMessage session.client payload env.memory = true) :
    Keeps (updateSeq (session.recorded payload env.memory) payload).client := by
  obtain ⟨hstored, hbound⟩ := h
  have hsee : (session.client.record payload env.memory).tracker.current =
      (session.client.tracker.see payload).current := rfl
  simp only [orderlyMessage, hready, Bool.false_eq_true, if_false, Bool.or_eq_true,
    Option.isNone_iff_eq_none, Bool.and_eq_true] at horderly
  by_cases hjoined : (payload.isDispatch && session.client.tracker.joined) = true
  · obtain ⟨hdispatch, hin⟩ := Bool.and_eq_true_iff.mp hjoined
    obtain ⟨info, hinfo, hid, hseq, hurl, hnourl⟩ := hstored.known (hbound hin)
    have hcurrent : (session.client.tracker.see payload).current =
        some { info with lastSeq := payload.seq.or info.lastSeq } := by
      simp [Tracker.see, hready, hjoined, hinfo]
    have hsame : (session.client.tracker.see payload).joined = session.client.tracker.joined := by
      simp [Tracker.see, hready, hjoined]
    cases hnumber : payload.seq with
    | none =>
      simp only [updateSeq, hnumber, Session.recorded]
      refine ⟨⟨?_, hstored.blank⟩, fun hj => hbound (hsame.symm.trans hj)⟩
      intro _
      exact ⟨_, hsee.trans hcurrent, hid, by simpa [hnumber, Client.record] using hseq, hurl, hnourl⟩
    | some seq =>
      simp only [updateSeq, hnumber, Session.recorded]
      refine ⟨⟨?_, ?_⟩, fun hj => hbound (hsame.symm.trans hj)⟩
      · intro _
        exact ⟨_, hsee.trans hcurrent, hid, by simp [hnumber], hurl, hnourl⟩
      · intro hnone
        have hsome := hbound hin
        simp only [Client.record] at hnone
        simp [hsome] at hnone
  · have hnumber : payload.seq = none := by
      rcases horderly with hnone | hdispatch
      · exact hnone
      · exact absurd (by simp [hdispatch]) hjoined
    have hsame : session.client.tracker.see payload = session.client.tracker := by
      simp [Tracker.see, hready, hjoined]
    simp only [updateSeq, hnumber, Session.recorded]
    refine ⟨hstored.congr rfl rfl rfl rfl (by rw [hsee, hsame]), ?_⟩
    intro hj
    refine hbound ?_
    rw [← hsame]
    exact hj

theorem handleDispatch_ready_keeps (env : Handling) (hready : payload.isReady = true)
    (horderly : orderlyMessage session.client payload env.memory = true) :
    Keeps (handleDispatch (updateSeq (session.recorded payload env.memory) payload) payload
      env).1.client := by
  simp only [orderlyMessage, hready, if_true, Bool.and_eq_true, Bool.or_eq_true,
    Bool.not_eq_true'] at horderly
  obtain ⟨⟨⟨⟨hid, hseq⟩, hmemory⟩, hmemory'⟩, hurl⟩ := horderly
  obtain ⟨seq, hnumber⟩ := Option.isSome_iff_exists.mp hseq
  obtain ⟨_, hname⟩ := Bool.and_eq_true_iff.mp hready
  obtain ⟨name, hevent, htype⟩ := Option.map_eq_some_iff.mp (beq_iff_eq.mp hname)
  have hcurrent : (updateSeq (session.recorded payload env.memory) payload).client.tracker.current =
      some ⟨payload.sessionId, payload.resumeGatewayUrl, some seq⟩ := by
    simp [updateSeq, hnumber, Session.recorded, Client.record, Tracker.see, hready]
  obtain ⟨hok, htext, hstored⟩ := storeReady_stored env.memory hid hmemory hmemory'
    (by simp [updateSeq, hnumber])
    (by simpa [updateSeq, hnumber, Session.recorded, Client.record] using hurl) hcurrent
  unfold handleDispatch
  simp only [hevent, htype]
  split
  · rename_i stored hstore
    rw [hstore] at htext hstored
    exact ⟨hstored, fun _ => htext⟩
  · rename_i stored status _ hstore
    rw [hstore] at htext hstored
    exact ⟨hstored, fun _ => htext⟩

theorem handleDispatch_other_keeps (env : Handling) (h : Keeps session.client)
    (hready : payload.eventName.map eventTypeFromName ≠ some .ready) :
    Keeps (handleDispatch session payload env).1.client := by
  unfold handleDispatch
  split
  · exact h
  · rename_i name hname
    split
    · rename_i htype
      simp [hname, htype] at hready
    · exact ⟨h.1.congr rfl rfl rfl rfl rfl, h.2⟩
    · exact h

theorem handleDispatch_tracker :
    (handleDispatch session payload env).1.client.tracker = session.client.tracker := by
  have hstore : ∀ (memory : ReadyMemory) (sessionId resumeUrl : Option Bytes),
      (storeReady session.client memory sessionId resumeUrl).1.tracker =
        session.client.tracker := by
    intro memory sessionId resumeUrl
    unfold storeReady
    repeat' split
    all_goals rfl
  unfold handleDispatch
  split
  · rfl
  · split
    · have hready := hstore env.memory payload.sessionId payload.resumeGatewayUrl
      split
      all_goals
        rename_i hpair
        rw [hpair] at hready
        exact hready
    · rfl
    · rfl

theorem updateSeq_tracker : (updateSeq session payload).client.tracker = session.client.tracker := by
  unfold updateSeq
  split <;> rfl

theorem handlePayload_tracker :
    (handlePayload session payload env).1.client.tracker = session.client.tracker := by
  have hseq : (updateSeq session payload).client.tracker = session.client.tracker :=
    updateSeq_tracker
  unfold handlePayload
  simp only
  split
  · exact hseq
  · have hdispatch : (handleDispatch (updateSeq session payload) payload env).1.client.tracker =
        session.client.tracker := handleDispatch_tracker.trans hseq
    split
    · split
      all_goals
        rename_i hpair
        rw [hpair] at hdispatch
        exact hdispatch
    · repeat' split
      all_goals first
        | exact hseq
        | skip
      unfold invalidSessionNext
      split <;> exact hseq

/-- **An orderly message keeps the stored values together**; while the loop goes on, the id
of the session that the connection belongs to stays stored. -/
theorem handlePayload_keeps (h : Keeps session.client)
    (horderly : orderlyMessage session.client payload env.memory = true) :
    Stored (handlePayload (session.recorded payload env.memory) payload env).1.client ∧
      ((handlePayload (session.recorded payload env.memory) payload env).2 = .reply ∨
        (handlePayload (session.recorded payload env.memory) payload env).2 = .done .ok →
        Keeps (handlePayload (session.recorded payload env.memory) payload env).1.client) := by
  by_cases hready : payload.isReady = true
  · obtain ⟨hop, _⟩ := Bool.and_eq_true_iff.mp hready
    have hop' : payload.op = some 0 := beq_iff_eq.mp hop
    have hkeeps := handleDispatch_ready_keeps env hready horderly
    unfold handlePayload
    simp only [hop', if_true]
    split
    all_goals
      rename_i hpair
      rw [hpair] at hkeeps
      exact ⟨hkeeps.1, fun _ => hkeeps⟩
  · have hready' : payload.isReady = false := by simpa using hready
    have hkeeps := updateSeq_keeps h hready' horderly
    unfold handlePayload
    simp only
    split
    · exact ⟨hkeeps.1, fun _ => hkeeps⟩
    · rename_i op hop
      by_cases h0 : op = 0
      · have hname : payload.eventName.map eventTypeFromName ≠ some .ready := by
          intro hname
          simp [Payload.isReady, Payload.isDispatch, hop, h0, hname] at hready
        have hdispatch := handleDispatch_other_keeps env hkeeps hname
        rw [if_pos h0]
        split
        all_goals
          rename_i hpair
          rw [hpair] at hdispatch
          exact ⟨hdispatch.1, fun _ => hdispatch⟩
      · rw [if_neg h0]
        by_cases h1 : op = 1
        · rw [if_pos h1]
          exact ⟨hkeeps.1, fun _ => hkeeps⟩
        · rw [if_neg h1]
          by_cases h7 : op = 7
          · rw [if_pos h7]
            exact ⟨hkeeps.1, fun _ => hkeeps⟩
          · rw [if_neg h7]
            by_cases h9 : op = 9
            · rw [if_pos h9]
              refine ⟨?_, by simp⟩
              unfold invalidSessionNext
              split
              · exact hkeeps.1
              · exact (clearResume_stored _).congr rfl rfl rfl rfl rfl
            · rw [if_neg h9]
              split
              all_goals exact ⟨hkeeps.1, fun _ => hkeeps⟩

end Message

/-! ## One connection -/

/-- The stored values of a connection; while its loop runs, the id of its session is
stored. -/
structure LiveKeeps (live : Live) : Prop where
  stored : StoredWell live.session.client
  bound : live.session.client.tracker.orderly = true →
    live.receiver = .receiving ∨ live.receiver = .replying →
    live.session.client.tracker.joined = true → isText live.session.client.sessionId = true

variable {live next : Live}

theorem LiveKeeps.frame (h : LiveKeeps live) (hclient : next.session.client = live.session.client)
    (hreceiver : next.receiver = .receiving ∨ next.receiver = .replying →
      live.receiver = .receiving ∨ live.receiver = .replying) : LiveKeeps next := by
  constructor
  · rw [hclient]
    exact h.stored
  · rw [hclient]
    intro horderly hrunning
    exact h.bound horderly (hreceiver hrunning)

theorem leave_keeps {session : Session} {status : Status} (h : StoredWell session.client) :
    LiveKeeps (live.leave session status) := by
  refine ⟨h, ?_⟩
  simp [Live.leave]

theorem handle_keeps (h : LiveKeeps live) (hreceiving : live.receiver = .receiving)
    (payload : Payload) (env : Handling) : LiveKeeps (live.handle payload env) := by
  have htracker : (handlePayload (live.session.recorded payload env.memory) payload
      env).1.client.tracker = (live.session.client.record payload env.memory).tracker :=
    handlePayload_tracker
  have hbefore : (handlePayload (live.session.recorded payload env.memory) payload
      env).1.client.tracker.orderly = true → Keeps live.session.client ∧
        orderlyMessage live.session.client payload env.memory = true := by
    intro horderly
    rw [htracker] at horderly
    obtain ⟨hold, hnew⟩ := Bool.and_eq_true_iff.mp horderly
    exact ⟨⟨h.stored hold, h.bound hold (.inl hreceiving)⟩, hnew⟩
  have hkeeps : StoredWell (handlePayload (live.session.recorded payload env.memory) payload
      env).1.client := by
    intro horderly
    obtain ⟨hkeeps, hnew⟩ := hbefore horderly
    exact (handlePayload_keeps hkeeps hnew).1
  have hbound : ((handlePayload (live.session.recorded payload env.memory) payload env).2 = .reply ∨
      (handlePayload (live.session.recorded payload env.memory) payload env).2 = .done .ok) →
      (handlePayload (live.session.recorded payload env.memory) payload
        env).1.client.tracker.orderly = true →
      (handlePayload (live.session.recorded payload env.memory) payload
        env).1.client.tracker.joined = true →
      isText (handlePayload (live.session.recorded payload env.memory) payload
        env).1.client.sessionId = true := by
    intro hgoes horderly
    obtain ⟨hkeeps, hnew⟩ := hbefore horderly
    exact ((handlePayload_keeps hkeeps hnew).2 hgoes).2
  unfold Live.handle
  simp only
  split
  · rename_i session hpair
    change handlePayload (live.session.recorded payload env.memory) payload env = _ at hpair
    rw [hpair] at hkeeps hbound
    exact ⟨hkeeps, fun horderly _ => hbound (.inl rfl) horderly⟩
  · rename_i session hpair
    change handlePayload (live.session.recorded payload env.memory) payload env = _ at hpair
    rw [hpair] at hkeeps hbound
    exact ⟨hkeeps, fun horderly _ => hbound (.inr rfl) horderly⟩
  · rename_i session status _ hpair
    change handlePayload (live.session.recorded payload env.memory) payload env = _ at hpair
    rw [hpair] at hkeeps
    exact leave_keeps hkeeps

theorem receive_keeps (h : LiveKeeps live) (hreceiving : live.receiver = .receiving)
    (received : Received) (flags : Flags) : LiveKeeps (live.receive received flags) := by
  cases received with
  | message payload env => exact handle_keeps h hreceiving payload env
  | closed code =>
    simp only [Live.receive]
    split
    · apply leave_keeps
      exact h.stored
    · split
      · exact leave_keeps (takeReconnectRequest_storedWell h.stored flags)
      · exact leave_keeps (nextForClose_storedWell h.stored code)
  | failed status =>
    simp only [Live.receive]
    split
    · exact leave_keeps (takeReconnectRequest_storedWell h.stored flags)
    · apply leave_keeps
      exact h.stored
  | noScratch =>
    apply leave_keeps
    exact h.stored
  | badJson status =>
    apply leave_keeps
    exact h.stored

theorem finalizeReceive_storedWell {session : Session} {flags : Flags} {status : Status}
    (h : StoredWell session.client) :
    StoredWell (finalizeReceive session flags status).1.client := by
  unfold finalizeReceive
  split
  · exact h
  · split
    · exact takeReconnectRequest_storedWell h flags
    · repeat' split
      all_goals exact h

theorem wake_keeps (h : LiveKeeps live) : LiveKeeps live.wake := by
  unfold Live.wake
  repeat' split
  all_goals first
    | exact h
    | exact h.frame rfl id

theorem beatSent_keeps (h : LiveKeeps live) (status : Status) : LiveKeeps (live.beatSent status) := by
  unfold Live.beatSent
  repeat' split
  all_goals first
    | exact h
    | exact h.frame rfl id

theorem step_keeps (h : LiveKeeps live) (event : Event) : LiveKeeps (step live event) := by
  cases event with
  | elapse ms => exact h.frame rfl id
  | wake => exact wake_keeps h
  | beatSent status => exact beatSent_keeps h status
  | receive received flags =>
    simp only [step]
    split
    · rename_i hreceiving
      exact receive_keeps h hreceiving received flags
    · exact h
  | replySent status =>
    simp only [step]
    split
    · rename_i hreplying
      unfold Live.replySent
      split
      · exact h.frame rfl fun _ => .inr hreplying
      · apply leave_keeps
        exact h.stored
    · exact h
  | interrupt =>
    simp only [step]
    split
    · apply leave_keeps
      exact h.stored
    · exact h
  | join flags =>
    simp only [step]
    split
    · rename_i status _
      constructor
      · apply finalizeReceive_storedWell
        exact h.stored
      · simp [Live.join]
    · exact h

theorem foldl_step_keeps (h : LiveKeeps live) (events : List Event) :
    LiveKeeps (events.foldl step live) := by
  induction events generalizing live with
  | nil => exact h
  | cons event rest ih => exact ih (step_keeps h event)

theorem start_keeps (h : StoredWell client) (resume : Bool) (intervalMs jitterMs : Nat) :
    LiveKeeps (Live.start client resume intervalMs jitterMs) := by
  constructor
  · intro horderly
    exact (h horderly).congr rfl rfl rfl rfl rfl
  · intro _ _ hjoined
    obtain ⟨_, hcan⟩ := Bool.and_eq_true_iff.mp hjoined
    simp only [canResume, Bool.and_eq_true] at hcan
    exact hcan.1.2

theorem Attempt.live_keeps (h : StoredWell client) (env : Attempt) (resume : Bool)
    (intervalMs : Nat) : LiveKeeps (env.live client resume intervalMs) :=
  foldl_step_keeps (foldl_step_keeps (start_keeps h resume intervalMs env.jitterMs) _) env.events

/-! ## A run -/

/-- A RESUME says what the server had told: the id and the URL of one READY, where a READY
without a URL stands for the gateway URL of the client, and the number of the last dispatch
of that session. -/
def SameSession (sessionId : Bytes) (seq : UInt64) (url : Bytes) (known : Tracker)
    (own : Bytes) : Prop :=
  ∃ info, known.current = some info ∧ info.sessionId = some sessionId ∧ info.lastSeq = some seq ∧
    url = if isText info.resumeUrl then info.resumeUrl.getD [] else own

/-- A RESUME after orderly messages is about one session. -/
def Sent.Coherent : Sent → Prop
  | .resume sessionId seq url known own =>
    known.orderly = true → SameSession sessionId seq url known own
  | _ => True

/-- What `dcc_gateway_run_once` leaves: a client in order, a connection in order, and RESUMEs
that are about one session. -/
structure OnceKeeps (result : Once × List Sent × Option Live) : Prop where
  ended : ∀ client next status, result.1 = .ended client next status → StoredWell client
  sent : ∀ sent ∈ result.2.1, sent.Coherent
  live : ∀ live, result.2.2 = some live → LiveKeeps live

theorem OnceKeeps.of_ended (h : StoredWell client) (next : Next) (status : Status) :
    OnceKeeps (.ended client next status, [], none) := by
  refine ⟨?_, by simp, by simp⟩
  intro client' next' status' heq
  cases heq
  exact h

theorem nextAfterFailure_keeps (h : StoredWell client) (flags : Flags) (status : Status) :
    OnceKeeps (nextAfterFailure client flags status, [], none) := by
  unfold nextAfterFailure
  split
  · exact .of_ended h _ _
  · split
    · exact .of_ended (takeReconnectRequest_storedWell h flags) _ _
    · exact .of_ended h _ _

/-- **The RESUME of a client whose values are stored is about one session.** -/
theorem resume_sameSession (h : Stored client) (hcan : canResume client = true) :
    SameSession (client.sessionId.getD []) client.seq (attemptUrl client true) client.tracker
      (attemptUrl client false) := by
  simp only [canResume, Bool.and_eq_true] at hcan
  obtain ⟨⟨_, hid⟩, hhas⟩ := hcan
  obtain ⟨info, hcurrent, hinfo, hseq, hurl, hnourl⟩ := h.known hid
  refine ⟨info, hcurrent, ?_, hseq hhas, ?_⟩
  · rw [hinfo]
    cases hsome : client.sessionId with
    | none => simp [hsome, isText] at hid
    | some id => rfl
  · by_cases htext : isText client.resumeUrl = true
    · rw [hurl htext]
      simp [attemptUrl, htext]
    · have hnone : isText client.resumeUrl = false := by simpa using htext
      simp [attemptUrl, hnone, hnourl hnone]

variable {env : Attempt} {url : Bytes} {resume : Bool}

theorem runPayload_keeps (h : StoredWell client) (intervalMs : Nat)
    (hresume : resume = true → canResume client = true ∧ url = attemptUrl client true) :
    OnceKeeps (runPayload env client url resume intervalMs) := by
  unfold runPayload
  simp only
  split
  · exact nextAfterFailure_keeps h _ _
  · have hlive : LiveKeeps (env.live client resume intervalMs) := Attempt.live_keeps h env _ _
    constructor
    · intro client' next status honce
      simp only [onceOf] at honce
      split at honce
      · cases honce
        exact hlive.stored
      · cases honce
    · intro sent hmem
      obtain rfl := List.mem_singleton.mp hmem
      split
      · rename_i htrue
        obtain ⟨hcan, rfl⟩ := hresume htrue
        intro horderly
        exact resume_sameSession (h horderly) hcan
      · trivial
    · intro live hsome
      cases hsome
      exact hlive

theorem runConnected_keeps (h : StoredWell client)
    (hresume : resume = true → canResume client = true ∧ url = attemptUrl client true) :
    OnceKeeps (runConnected env client url resume) := by
  unfold runConnected
  split
  · exact .of_ended h _ _
  · split
    · exact nextAfterFailure_keeps h _ _
    · split
      · exact .of_ended h _ _
      · split
        · simp only
          split
          · exact .of_ended (takeDelay_storedWell h) _ _
          · split
            · exact .of_ended (takeReconnectRequest_storedWell (takeDelay_storedWell h) _) _ _
            · exact .of_ended (takeDelay_storedWell h) _ _
        · simp only
          by_cases hfresh : resume = false ∧ env.coordinated = false
          · rw [if_pos hfresh]
            refine runPayload_keeps (takeDelay_storedWell h) _ ?_
            intro htrue
            simp [hfresh.1] at htrue
          · rw [if_neg hfresh]
            exact runPayload_keeps h _ hresume

theorem OnceKeeps.connected {result : Once × List Sent × Option Live} (h : OnceKeeps result) :
    OnceKeeps (result.1, .connect url :: result.2.1, result.2.2) := by
  refine ⟨h.ended, ?_, h.live⟩
  intro sent hmem
  rcases List.mem_cons.mp hmem with rfl | hrest
  · trivial
  · exact h.sent sent hrest

theorem runOnce_keeps (h : StoredWell client)
    (hurl : resume = true → canResume client = true → url = attemptUrl client true) :
    OnceKeeps (runOnce env client url resume) := by
  have hresume : (resume && canResume client) = true →
      canResume client = true ∧ url = attemptUrl client true := by
    intro hboth
    obtain ⟨htrue, hcan⟩ := Bool.and_eq_true_iff.mp hboth
    exact ⟨hcan, hurl htrue hcan⟩
  unfold runOnce
  simp only
  split
  · rename_i hfresh
    split
    · exact .of_ended (takeDelay_storedWell h) _ _
    · refine (runConnected_keeps (takeDelay_storedWell h) ?_).connected
      intro htrue
      simp [hfresh.1] at htrue
  · exact (runConnected_keeps h hresume).connected

/-- A run in order: its client and its connection keep the values of one session, and so did
every RESUME. -/
structure Run.Coherent (run : Run) : Prop where
  client : StoredWell run.client
  live : ∀ live, run.live = some live → LiveKeeps live
  log : ∀ sent ∈ run.log, sent.Coherent

variable {run : Run}

section

variable (h : run.Coherent)
include h

theorem Run.takeRequest_coherent (flags : Flags) :
    (run.takeRequest flags).Coherent := by
  unfold Run.takeRequest
  split
  · exact ⟨takeReconnectRequest_storedWell h.client flags, h.live, h.log⟩
  · exact h

theorem Run.conclude_coherent (hclient : StoredWell client) (next : Next)
    (status : Status) : (run.conclude env client next status).Coherent := by
  unfold Run.conclude
  simp only
  have hwaited : StoredWell (if client.identifyDelayMs > backoffJitterMs run.attempt
      env.backoffJitterMs then takeDelay client else client) := by
    split
    · exact takeDelay_storedWell hclient
    · exact hclient
  split
  · exact ⟨hclient, h.live, h.log⟩
  · split
    · exact ⟨hclient, h.live, h.log⟩
    · split
      · exact ⟨hwaited, h.live, h.log⟩
      · split
        · apply Run.takeRequest_coherent
          exact ⟨hwaited, h.live, h.log⟩
        · exact ⟨hwaited, h.live, h.log⟩

theorem Run.dial_coherent : (run.dial env).Coherent := by
  have honce : OnceKeeps (runOnce env run.client (attemptUrl run.client run.resume)
      run.resume) := by
    refine runOnce_keeps h.client ?_
    intro htrue _
    rw [htrue]
  have hlog : ∀ sent ∈ run.log ++ (runOnce env run.client (attemptUrl run.client run.resume)
      run.resume).2.1, sent.Coherent := by
    intro sent hmem
    rcases List.mem_append.mp hmem with hold | hnew
    · exact h.log sent hold
    · exact honce.sent sent hnew
  unfold Run.dial
  simp only
  split
  · exact ⟨h.client, h.live, h.log⟩
  · split
    · exact ⟨h.client, h.live, h.log⟩
    · split
      · exact ⟨h.client, honce.live, hlog⟩
      · rename_i client next status hended
        apply Run.conclude_coherent
        · exact ⟨h.client, honce.live, hlog⟩
        · exact honce.ended client next status hended

theorem Run.attempted_coherent (env : Attempt) :
    (run.attempted env).Coherent := by
  have hstart : ({ run with live := none }.takeRequest env.top).Coherent := by
    apply Run.takeRequest_coherent
    exact ⟨h.client, by simp, h.log⟩
  unfold Run.attempted
  split
  · exact h
  · split
    · exact ⟨h.client, h.live, h.log⟩
    · simp only
      split
      · split
        · exact ⟨hstart.client, hstart.live, hstart.log⟩
        · apply Run.dial_coherent
          refine ⟨?_, hstart.live, hstart.log⟩
          intro horderly
          exact (hstart.client horderly).congr rfl rfl rfl rfl rfl
      · apply Run.dial_coherent
        exact ⟨hstart.client, hstart.live, hstart.log⟩

/-- `dcc_gateway_start` after the loop has returned: the client keeps its values. -/
def Run.restarted (run : Run) : Run :=
  if run.returned = none then run else { Run.start run.client with log := run.log }

/-- One round of the loop, or a new start of it. -/
inductive Move
  | attempt (env : Attempt)
  | restart

def Run.moved (run : Run) : Move → Run
  | .attempt env => run.attempted env
  | .restart => run.restarted

theorem Run.moved_coherent (move : Move) : (run.moved move).Coherent := by
  cases move with
  | attempt env => exact Run.attempted_coherent h env
  | restart =>
    simp only [Run.moved, Run.restarted]
    split
    · exact h
    · exact ⟨h.client, by simp [Run.start], h.log⟩

theorem Run.foldl_moved_coherent (moves : List Move) :
    (moves.foldl Run.moved run).Coherent := by
  induction moves generalizing run with
  | nil => exact h
  | cons move rest ih => exact ih (Run.moved_coherent h move)

end

theorem Client.new_stored (url : Option Bytes) : Stored (Client.new url) := by
  constructor <;> simp [Client.new, isText]

/-- **One session at a time.**  In every run of the gateway, with any failures, reconnects,
requests and new starts, as long as the messages are orderly the stored values are those of
the session of the last READY, and every RESUME names the id and the URL of one READY and the
number of the last dispatch of its session. -/
theorem resume_coherent (url : Option Bytes) (moves : List Move) :
    let run := moves.foldl Run.moved (Run.start (Client.new url))
    (run.client.tracker.orderly = true → Stored run.client) ∧
    (∀ live, run.live = some live → live.session.client.tracker.orderly = true →
      Stored live.session.client) ∧
    ∀ sessionId seq url known own, Sent.resume sessionId seq url known own ∈ run.log →
      known.orderly = true → SameSession sessionId seq url known own := by
  intro run
  have hstart : (Run.start (Client.new url)).Coherent :=
    ⟨fun _ => Client.new_stored url, by simp [Run.start], by simp [Run.start]⟩
  have hrun : run.Coherent := Run.foldl_moved_coherent hstart moves
  refine ⟨hrun.client, fun live hlive => (hrun.live live hlive).stored, ?_⟩
  intro sessionId seq url known own hmem
  exact hrun.log _ hmem

/-- A READY. -/
def readyMessage (sessionId : Bytes) (resumeUrl : Option Bytes) : Event :=
  .receive (.message ⟨some 0, some 1, some (asciiText "READY"), some sessionId, resumeUrl, none⟩
    ⟨⟨true, true⟩, .ok, 0⟩) Flags.clear

/-- Session A has a resume URL; a broken message makes the client identify again; session B
comes without a resume URL, and the connection is closed.  The RESUME of session B goes to
the URL of session A, which no READY of B has named. -/
theorem resume_mixes_sessions :
    ∃ (moves : List Move) (known : Tracker) (own : Bytes),
      Sent.resume (asciiText "B") 1 (asciiText "wss://a") known own ∈
        (moves.foldl Run.moved (Run.start (Client.new (some (asciiText "wss://gateway"))))).log ∧
      known.current = some ⟨some (asciiText "B"), none, some 1⟩ ∧
      ¬ SameSession (asciiText "B") 1 (asciiText "wss://a") known own := by
  refine ⟨[.attempt (plainAttempt [readyMessage (asciiText "A") (some (asciiText "wss://a")),
      .receive (.badJson .json) Flags.clear, .join Flags.clear]),
    .attempt (plainAttempt [readyMessage (asciiText "B") none,
      .receive (.closed 1000) Flags.clear, .join Flags.clear]),
    .attempt (plainAttempt [])],
    ⟨some ⟨some (asciiText "B"), none, some 1⟩, true, false⟩, asciiText "wss://gateway",
    by decide, rfl, ?_⟩
  intro hsame
  obtain ⟨info, hcurrent, _, _, hurl⟩ := hsame
  obtain rfl := Option.some.inj hcurrent
  revert hurl
  decide

end Dcc.Gateway
