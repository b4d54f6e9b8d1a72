import Mathlib.Data.List.Chain
import Mathlib.Data.List.Nodup
import Mathlib.Data.List.Range
import Dcc.Basic

/-!
# The voice send queue

Encoded audio and track markers wait in one queue of at most `sendQueueCap`
items.  `dcc_voice_client_drain_send_queue` takes them from the front: a marker
is announced to the listeners, an audio item becomes an RTP packet with the
current sequence number, timestamp and (with encryption) nonce.  Without an open
socket an audio item is taken from the queue all the same and nothing is sent.

What the surroundings come back with (the codec of end-to-end encryption, the
allocator, the AEAD cipher, `sendto`, the listeners) is an input of every round,
`Outcome`.

* `Numbered` — the items that left the queue got consecutive numbers;
* `sendQueue_discipline` — over all runs: items leave in the order they were
  accepted, each once; audio leaves with consecutive numbers, timestamps by its
  duration and fresh nonces; a failed send changes nothing;
* `nonces_nodup` — fewer than `2 ^ 32` encrypted packets never share a nonce.
-/

namespace Dcc.Voice

/-- `DCC_VOICE_SEND_QUEUE_CAP`. -/
def sendQueueCap : Nat := 256

/-- `DCC_VOICE_RTP_SAMPLE_RATE_PER_MS`. -/
def rtpSampleRatePerMs : Nat := 48

/-- `DCC_VOICE_RTP_PAYLOAD_TYPE`. -/
def rtpPayloadType : UInt8 := 120

/-- `DCC_VOICE_RTP_HEADER_SIZE`, in front of the payload. -/
def sendHeaderSize : Nat := 12

/-- `DCC_VOICE_AEAD_TAG_SIZE`. -/
def aeadTagSize : Nat := 16

/-- `DCC_VOICE_RTPSIZE_NONCE_SIZE`. -/
def rtpsizeNonceSize : Nat := 4

/-- `DCC_VOICE_XCHACHA20_NONCE_SIZE`. -/
def xchacha20NonceSize : Nat := 24

/-- `dcc_voice_send_item_t`: one of its two types. -/
inductive SendItem
  | packet (data : Bytes) (durationMs : Nat)
  | marker (trackMeta : Bytes)
  deriving DecidableEq, Repr

/-- The items in the queue, the oldest first. -/
structure SendQueue where
  items : List SendItem
  fits : items.length ≤ sendQueueCap

/-- `dcc_voice_send_queue_pop_front`. -/
def SendQueue.popFront (q : SendQueue) : SendQueue where
  items := q.items.tail
  fits := by
    have := q.fits
    simp only [List.length_tail]
    omega

/-- `dcc_voice_send_queue_push`. -/
def SendQueue.push (q : SendQueue) (item : SendItem) : Option SendQueue :=
  if h : q.items.length ≥ sendQueueCap then none
  else
    some
      { items := q.items ++ [item]
        fits := by
          rw [List.length_append, List.length_singleton]
          omega }

/-- The settings of the connection that sending reads. -/
structure Settings where
  udpOpen : Bool
  ssrc : UInt32
  daveEnabled : Bool
  encrypted : Bool
  secretKey : Option Bytes

/-- `rtp_sequence`, `rtp_timestamp` and `packet_nonce`. -/
structure Counters where
  sequence : UInt16
  timestamp : UInt32
  nonce : UInt32
  deriving DecidableEq, Repr

/-- An audio item that left the queue: the numbers it got, the nonce if it was
encrypted, and the datagram if the socket was open. -/
structure AudioLeft where
  data : Bytes
  durationMs : Nat
  sequence : UInt16
  timestamp : UInt32
  nonce : Option UInt32
  datagram : Option Bytes
  deriving DecidableEq, Repr

/-- How an item left the queue. -/
inductive Departure
  | audio (left : AudioLeft)
  | fired (trackMeta : Bytes)
  | discarded (item : SendItem)
  deriving DecidableEq, Repr

/-- The item that left. -/
def Departure.item : Departure → SendItem
  | .audio left => .packet left.data left.durationMs
  | .fired trackMeta => .marker trackMeta
  | .discarded item => item

/-- The sending side of a connection.  The last two fields record what was
accepted and how it left; the code never reads them. -/
structure Sender where
  settings : Settings
  counters : Counters
  queue : SendQueue
  accepted : List SendItem
  left : List Departure

/-- A status that is not `ok`. -/
abbrev Failure := { status : Status // status ≠ .ok }

/-- What the surroundings come back with in one round of the drain loop. -/
structure Outcome where
  dave : Bytes → Except Failure Bytes
  allocated : Bool
  xchacha20poly1305 : Bytes → Bytes → Bytes → Bytes → Except Failure Bytes
  sendto : Bytes → Option Nat
  notify : Status

/-- `dcc_voice_write_be16`. -/
def be16 (value : UInt16) : Bytes := [(value >>> 8).toUInt8, value.toUInt8]

/-- `dcc_voice_write_be32`. -/
def be32 (value : UInt32) : Bytes :=
  [(value >>> 24).toUInt8, (value >>> 16).toUInt8, (value >>> 8).toUInt8, value.toUInt8]

/-- The RTP header. -/
def rtpHeader (sequence : UInt16) (timestamp ssrc : UInt32) : Bytes :=
  [0x80, rtpPayloadType] ++ be16 sequence ++ be32 timestamp ++ be32 ssrc

/-- `dcc_voice_rtp_duration_samples`. -/
def rtpDurationSamples (durationMs : Nat) : UInt32 :=
  UInt32.ofNat (durationMs % 2 ^ 32 * rtpSampleRatePerMs)

/-- The RTP packet of a payload: header, payload or sealed payload, nonce. -/
def buildRtp (settings : Settings) (counters : Counters) (payload : Bytes) (o : Outcome) :
    Except Failure Bytes :=
  let header := rtpHeader counters.sequence counters.timestamp settings.ssrc
  if !settings.encrypted then
    if !o.allocated then .error ⟨.nomem, by decide⟩ else .ok (header ++ payload)
  else
    match settings.secretKey with
    | none => .error ⟨.state, by decide⟩
    | some key =>
      if payload.length > wordMax - sendHeaderSize - aeadTagSize - rtpsizeNonceSize then
        .error ⟨.state, by decide⟩
      else if !o.allocated then .error ⟨.nomem, by decide⟩
      else
        let nonce := be32 counters.nonce ++ List.replicate (xchacha20NonceSize - 4) 0
        match o.xchacha20poly1305 key nonce header payload with
        | .error status => .error status
        | .ok sealed =>
          if sealed.length ≠ payload.length + aeadTagSize then .error ⟨.state, by decide⟩
          else .ok (header ++ sealed ++ nonce.take rtpsizeNonceSize)

/-- `dcc_voice_client_send_queued_packet`: the datagram that was sent, or none when
there is no socket. -/
def sendQueuedPacket (settings : Settings) (counters : Counters) (data : Bytes) (o : Outcome) :
    Except Failure (Option Bytes) :=
  if !settings.udpOpen then .ok none
  else if settings.ssrc == 0 || data.length > wordMax - sendHeaderSize then .error ⟨.state, by decide⟩
  else
    match if settings.daveEnabled then o.dave data else .ok data with
    | .error status => .error status
    | .ok payload =>
      match buildRtp settings counters payload o with
      | .error status => .error status
      | .ok datagram =>
        if o.sendto datagram = some datagram.length then .ok (some datagram)
        else .error ⟨.network, by decide⟩

/-- The counters after an audio item left. -/
def Counters.after (c : Counters) (durationMs : Nat) (encrypted : Bool) : Counters where
  sequence := c.sequence + 1
  timestamp := c.timestamp + rtpDurationSamples durationMs
  nonce := if encrypted then c.nonce + 1 else c.nonce

namespace Sender

/-- A connection with an empty queue. -/
def start (settings : Settings) (counters : Counters) : Sender where
  settings := settings
  counters := counters
  queue := ⟨[], by simp⟩
  accepted := []
  left := []

/-- The front item leaves. -/
def depart (s : Sender) (departure : Departure) : Sender :=
  { s with queue := s.queue.popFront, left := s.left ++ [departure] }

/-- The front item and the numbers it left with. -/
def stamped (s : Sender) (data : Bytes) (durationMs : Nat) (datagram : Option Bytes) : AudioLeft where
  data := data
  durationMs := durationMs
  sequence := s.counters.sequence
  timestamp := s.counters.timestamp
  nonce := if s.settings.encrypted then some s.counters.nonce else none
  datagram := datagram

/-- The front item leaves as audio, and the counters go on. -/
def departAudio (s : Sender) (data : Bytes) (durationMs : Nat) (datagram : Option Bytes) : Sender :=
  { s.depart (.audio (s.stamped data durationMs datagram)) with
      counters := s.counters.after durationMs s.settings.encrypted }

/-- One round of the drain loop, on the item at the front.  A round that does not
come back with `ok` ends the loop. -/
def drainRound (s : Sender) (item : SendItem) (o : Outcome) : Sender × Status :=
  match item with
  | .marker trackMeta =>
    if o.notify ≠ .ok then (s, o.notify) else (s.depart (.fired trackMeta), .ok)
  | .packet data durationMs =>
    match sendQueuedPacket s.settings s.counters data o with
    | .error failure => (s, failure.val)
    | .ok datagram => (s.departAudio data durationMs datagram, o.notify)

/-- The loop of `dcc_voice_client_drain_send_queue` over the items of the queue. -/
def drainFrom (outcomes : Nat → Outcome) (maxPackets : Nat) :
    List SendItem → Nat → Nat → Sender → Sender × Status
  | [], _, _, s => (s, .ok)
  | item :: rest, round, packetsSent, s =>
    if maxPackets ≠ 0 ∧ packetsSent ≥ maxPackets then (s, .ok)
    else
      let result := s.drainRound item (outcomes round)
      if result.2 ≠ .ok then result
      else
        let packetsSent := match item with
          | .packet _ _ => packetsSent + 1
          | .marker _ => packetsSent
        drainFrom outcomes maxPackets rest (round + 1) packetsSent result.1

/-- `dcc_voice_client_drain_send_queue`. -/
def drainSendQueue (s : Sender) (maxPackets : Nat) (outcomes : Nat → Outcome) :
    Sender × Status :=
  drainFrom outcomes maxPackets s.queue.items 0 0 s

/-- Queueing an item that was allocated. -/
def enqueue (s : Sender) (item : SendItem) : Sender × Status :=
  match s.queue.push item with
  | none => (s, .nomem)
  | some queue => ({ s with queue, accepted := s.accepted ++ [item] }, .ok)

/-- `dcc_voice_client_send_opus_packet`. -/
def sendOpusPacket (s : Sender) (packet : Bytes) (durationMs : Nat) (allocated : Bool) :
    Sender × Status :=
  if packet.length = 0 then (s, .invalidArg)
  else if !allocated then (s, .nomem)
  else s.enqueue (.packet packet durationMs)

/-- `dcc_voice_client_insert_marker`. -/
def insertMarker (s : Sender) (trackMeta : Bytes) (allocated : Bool) : Sender × Status :=
  if !allocated then (s, .nomem) else s.enqueue (.marker trackMeta)

/-- The loops of `dcc_voice_client_clear_send_queue` and
`dcc_voice_client_skip_to_next_marker`: items are taken from the front until the
queue is empty or, for the second, a marker was taken. -/
def discardFrom (untilMarker : Bool) : List SendItem → Sender → Sender
  | [], s => s
  | item :: rest, s =>
    let s := s.depart (.discarded item)
    match item with
    | .marker _ => if untilMarker then s else discardFrom untilMarker rest s
    | .packet _ _ => discardFrom untilMarker rest s

/-- `dcc_voice_client_clear_send_queue`. -/
def clearSendQueue (s : Sender) : Sender := discardFrom false s.queue.items s

/-- `dcc_voice_client_skip_to_next_marker`. -/
def skipToNextMarker (s : Sender) : Sender := discardFrom true s.queue.items s

/-- One call on the sending side. -/
inductive Event
  | opus (packet : Bytes) (durationMs : Nat) (allocated : Bool)
  | marker (trackMeta : Bytes) (allocated : Bool)
  | drain (maxPackets : Nat) (outcomes : Nat → Outcome)
  | clear
  | skip
  | configure (settings : Settings)

/-- One call. -/
def next (s : Sender) : Event → Sender
  | .opus packet durationMs allocated => (s.sendOpusPacket packet durationMs allocated).1
  | .marker trackMeta allocated => (s.insertMarker trackMeta allocated).1
  | .drain maxPackets outcomes => (s.drainSendQueue maxPackets outcomes).1
  | .clear => s.clearSendQueue
  | .skip => s.skipToNextMarker
  | .configure settings => { s with settings }

end Sender

/-- The audio among what left the queue. -/
def audioLeft : List Departure → List AudioLeft
  | [] => []
  | .audio left :: rest => left :: audioLeft rest
  | _ :: rest => audioLeft rest

/-- What left the queue got the numbers from `c` on, and `c'` are the next ones. -/
def Numbered (c : Counters) : List AudioLeft → Counters → Prop
  | [], c' => c = c'
  | left :: rest, c' =>
    left.sequence = c.sequence ∧ left.timestamp = c.timestamp ∧
      (∀ nonce ∈ left.nonce, nonce = c.nonce) ∧
      Numbered (c.after left.durationMs left.nonce.isSome) rest c'

/-- The datagram of an audio item has its numbers in the header and its nonce at
the end. -/
def AudioLeft.Carried (left : AudioLeft) : Prop :=
  ∀ datagram ∈ left.datagram, ∃ ssrc body,
    datagram = rtpHeader left.sequence left.timestamp ssrc ++ body ++ (left.nonce.map be32).getD []

theorem audioLeft_append (first rest : List Departure) :
    audioLeft (first ++ rest) = audioLeft first ++ audioLeft rest := by
  induction first with
  | nil => rfl
  | cons departure first ih =>
    cases departure with
    | audio left => rw [List.cons_append, audioLeft, audioLeft, ih, List.cons_append]
    | _ => exact ih

theorem Numbered.concat {c c' : Counters} {items : List AudioLeft} {left : AudioLeft}
    (h : Numbered c items c') (hsequence : left.sequence = c'.sequence)
    (htimestamp : left.timestamp = c'.timestamp) (hnonce : ∀ nonce ∈ left.nonce, nonce = c'.nonce) :
    Numbered c (items ++ [left]) (c'.after left.durationMs left.nonce.isSome) := by
  induction items generalizing c with
  | nil =>
    obtain rfl : c = c' := h
    exact ⟨hsequence, htimestamp, hnonce, rfl⟩
  | cons first items ih =>
    obtain ⟨hs, ht, hn, hrest⟩ := h
    exact ⟨hs, ht, hn, ih hrest⟩

theorem rtpDurationSamples_eq (durationMs : Nat) :
    rtpDurationSamples durationMs = UInt32.ofNat (rtpSampleRatePerMs * durationMs) := by
  apply UInt32.toNat_inj.mp
  simp only [rtpDurationSamples, UInt32.toNat_ofNat']
  rw [Nat.mod_mul_mod, Nat.mul_comm]

/-- Consecutive sequence numbers, and timestamps 48 samples apart for each
millisecond of the earlier item. -/
def NextAudio (a b : AudioLeft) : Prop :=
  b.sequence = a.sequence + 1 ∧
    b.timestamp = a.timestamp + UInt32.ofNat (rtpSampleRatePerMs * a.durationMs)

section

variable {c c' : Counters} {items : List AudioLeft} (h : Numbered c items c')
include h

theorem Numbered.isChain :
    items.IsChain NextAudio ∧
      ∀ first ∈ items.head?, first.sequence = c.sequence ∧ first.timestamp = c.timestamp := by
  induction items generalizing c with
  | nil => exact ⟨List.isChain_nil, by simp⟩
  | cons left rest ih =>
    obtain ⟨hsequence, htimestamp, -, hrest⟩ := h
    obtain ⟨hchain, hfirst⟩ := ih hrest
    refine ⟨List.isChain_cons.mpr ⟨?_, hchain⟩, ?_⟩
    · intro second hsecond
      obtain ⟨hseq, htime⟩ := hfirst second hsecond
      refine ⟨?_, ?_⟩
      · rw [hseq, hsequence]
        rfl
      · rw [htime, htimestamp, ← rtpDurationSamples_eq]
        rfl
    · intro first hhead
      obtain rfl : left = first := by simpa using hhead
      exact ⟨hsequence, htimestamp⟩

/-- The nonces of the encrypted items. -/
def noncesOf (items : List AudioLeft) : List UInt32 := items.filterMap AudioLeft.nonce

theorem Numbered.nonces_eq :
    noncesOf items =
      (List.range (noncesOf items).length).map (fun i => c.nonce + UInt32.ofNat i) := by
  induction items generalizing c with
  | nil => rfl
  | cons left rest ih =>
    obtain ⟨-, -, hnonce, hrest⟩ := h
    have hrest' := ih hrest
    cases hleft : left.nonce with
    | none =>
      have hskip : noncesOf (left :: rest) = noncesOf rest := by simp [noncesOf, hleft]
      rw [hskip]
      simpa [Counters.after, hleft] using hrest'
    | some nonce =>
      have hcons : noncesOf (left :: rest) = nonce :: noncesOf rest := by
        simp [noncesOf, hleft]
      have hnext : (c.after left.durationMs left.nonce.isSome).nonce = c.nonce + 1 := by
        simp [Counters.after, hleft]
      rw [hnext] at hrest'
      have hshift : noncesOf rest = (List.range (noncesOf rest).length).map
          (fun i => c.nonce + UInt32.ofNat (i + 1)) := by
        refine hrest'.trans (List.map_congr_left ?_)
        intro i _
        rw [UInt32.ofNat_add, UInt32.add_assoc, UInt32.add_comm 1]
        rfl
      rw [hcons, List.length_cons, List.range_succ_eq_map, List.map_cons, List.map_map,
        hnonce nonce hleft]
      simp only [Function.comp_def]
      rw [← hshift]
      simp

/-- **Fewer nonces than there are numbers are all different.** -/
theorem nonces_nodup (hfew : (noncesOf items).length ≤ 2 ^ 32) : (noncesOf items).Nodup := by
  rw [h.nonces_eq]
  refine List.Nodup.map_on ?_ List.nodup_range
  intro i hi j hj heq
  rw [List.mem_range] at hi hj
  have hcast : UInt32.ofNat i = UInt32.ofNat j := UInt32.add_right_inj c.nonce |>.mp heq
  have hsize : UInt32.size = 2 ^ 32 := rfl
  have hnat := congrArg UInt32.toNat hcast
  rw [UInt32.toNat_ofNat_of_lt' (by omega), UInt32.toNat_ofNat_of_lt' (by omega)] at hnat
  exact hnat

end

namespace Sender

/-- Items leave in the order in which they were accepted, audio with consecutive
numbers, and every datagram carries the numbers of its item. -/
structure Inv (c : Counters) (s : Sender) : Prop where
  fifo : s.accepted = s.left.map Departure.item ++ s.queue.items
  numbered : Numbered c (audioLeft s.left) s.counters
  carried : ∀ left ∈ audioLeft s.left, left.Carried

section Steps

variable {c : Counters} {s : Sender} {item : SendItem} {rest : List SendItem}

variable {departure : Departure}

theorem depart_fifo (h : s.accepted = s.left.map Departure.item ++ s.queue.items)
    (hitems : s.queue.items = item :: rest) (hitem : departure.item = item) :
    (s.depart departure).accepted =
      (s.depart departure).left.map Departure.item ++ (s.depart departure).queue.items := by
  show s.accepted = (s.left ++ [departure]).map Departure.item ++ s.queue.items.tail
  rw [h, hitems, List.map_append]
  simp [hitem]

theorem Inv.depart (h : Inv c s) (hitems : s.queue.items = item :: rest)
    (hitem : departure.item = item) (hsilent : audioLeft [departure] = []) :
    Inv c (s.depart departure) := by
  have haudio : audioLeft (s.depart departure).left = audioLeft s.left := by
    show audioLeft (s.left ++ [departure]) = audioLeft s.left
    rw [audioLeft_append, hsilent, List.append_nil]
  refine ⟨depart_fifo h.fifo hitems hitem, ?_, ?_⟩
  · rw [haudio]
    exact h.numbered
  · rw [haudio]
    exact h.carried

variable {settings : Settings} {counters : Counters} {o : Outcome}

theorem buildRtp_carried {payload : Bytes}
    {datagram : Bytes} (h : buildRtp settings counters payload o = .ok datagram) :
    ∃ body, datagram = rtpHeader counters.sequence counters.timestamp settings.ssrc ++ body ++
        ((if settings.encrypted then some counters.nonce else none).map be32).getD [] := by
  unfold buildRtp at h
  cases hencrypted : settings.encrypted with
  | false =>
    simp only [hencrypted, Bool.not_false, if_true] at h
    split at h
    · simp at h
    · exact ⟨payload, by simpa using (Except.ok.inj h).symm⟩
  | true =>
    simp only [hencrypted, Bool.not_true, Bool.false_eq_true, if_false] at h
    split at h
    · simp at h
    · split at h
      · simp at h
      · split at h
        · simp at h
        · split at h
          · simp at h
          · next sealedPayload _ =>
            split at h
            · simp at h
            · refine ⟨sealedPayload, ?_⟩
              rw [← Except.ok.inj h]
              simp [be32, rtpsizeNonceSize]

variable {data : Bytes}

theorem sendQueuedPacket_carried {datagram : Bytes}
    (h : sendQueuedPacket settings counters data o = .ok (some datagram)) :
    ∃ ssrc body, datagram = rtpHeader counters.sequence counters.timestamp ssrc ++ body ++
      ((if settings.encrypted then some counters.nonce else none).map be32).getD [] := by
  unfold sendQueuedPacket at h
  split at h
  · simp at h
  · split at h
    · simp at h
    · split at h
      · simp at h
      · split at h
        · simp at h
        · next built hbuild =>
          split at h
          · obtain rfl : built = datagram := by simpa using h
            exact ⟨settings.ssrc, buildRtp_carried hbuild⟩
          · simp at h

variable {durationMs : Nat} {datagram : Option Bytes}

theorem Inv.departAudio (h : Inv c s) (hitems : s.queue.items = .packet data durationMs :: rest)
    (hcarried : (s.stamped data durationMs datagram).Carried) :
    Inv c (s.departAudio data durationMs datagram) := by
  have haudio : audioLeft (s.departAudio data durationMs datagram).left =
      audioLeft s.left ++ [s.stamped data durationMs datagram] := by
    show audioLeft (s.left ++ [_]) = _
    rw [audioLeft_append]
    rfl
  have hcounters : (s.departAudio data durationMs datagram).counters =
      s.counters.after durationMs (s.stamped data durationMs datagram).nonce.isSome := by
    cases hencrypted : s.settings.encrypted <;> simp [Sender.departAudio, stamped, hencrypted]
  refine ⟨depart_fifo h.fifo hitems rfl, ?_, ?_⟩
  · rw [haudio, hcounters]
    refine h.numbered.concat rfl rfl ?_
    intro nonce hnonce
    simp only [stamped, Option.mem_def, Option.ite_none_right_eq_some, Option.some.injEq] at hnonce
    exact hnonce.2.symm
  · rw [haudio]
    intro left hleft
    rcases List.mem_append.mp hleft with hold | hnew
    · exact h.carried left hold
    · rw [List.mem_singleton.mp hnew]
      exact hcarried

theorem Inv.drainRound (h : Inv c s) (hitems : s.queue.items = item :: rest) (o : Outcome) :
    Inv c (s.drainRound item o).1 ∧
      ((s.drainRound item o).2 = .ok → (s.drainRound item o).1.queue.items = rest) := by
  have htail : s.queue.popFront.items = rest := by
    show s.queue.items.tail = rest
    rw [hitems, List.tail_cons]
  cases item with
  | marker trackMeta =>
    unfold Sender.drainRound
    by_cases hnotify : o.notify = .ok
    · simp only [hnotify, ne_eq, not_true_eq_false, if_false]
      exact ⟨h.depart hitems rfl rfl, fun _ => htail⟩
    · simp only [hnotify, ne_eq, not_false_eq_true, if_true]
      exact ⟨h, fun hok => absurd hok (by simp)⟩
  | packet data durationMs =>
    unfold Sender.drainRound
    simp only
    cases hsend : sendQueuedPacket s.settings s.counters data o with
    | error failure => exact ⟨h, fun hok => absurd hok failure.property⟩
    | ok datagram =>
      refine ⟨h.departAudio hitems ?_, fun _ => htail⟩
      intro sent hsent
      obtain rfl : datagram = some sent := hsent
      exact sendQueuedPacket_carried hsend

theorem Inv.drainFrom (outcomes : Nat → Outcome) (maxPackets : Nat) (items : List SendItem)
    (round packetsSent : Nat) (h : Inv c s) (hitems : s.queue.items = items) :
    Inv c (drainFrom outcomes maxPackets items round packetsSent s).1 := by
  induction items generalizing s round packetsSent with
  | nil => exact h
  | cons item rest ih =>
    obtain ⟨hround, hrest⟩ := h.drainRound hitems (outcomes round)
    unfold Sender.drainFrom
    split
    · exact h
    · simp only
      split
      · exact hround
      · next hok => exact ih _ _ hround (hrest (by simpa using hok))

theorem Inv.discardFrom (untilMarker : Bool) (items : List SendItem) (h : Inv c s)
    (hitems : s.queue.items = items) : Inv c (discardFrom untilMarker items s) := by
  induction items generalizing s with
  | nil => exact h
  | cons item rest ih =>
    have hgone : Inv c (s.depart (.discarded item)) := h.depart hitems rfl rfl
    have htail : (s.depart (.discarded item)).queue.items = rest := by
      show s.queue.items.tail = rest
      rw [hitems, List.tail_cons]
    cases item with
    | marker trackMeta =>
      unfold Sender.discardFrom
      cases untilMarker with
      | true => exact hgone
      | false => exact ih hgone htail
    | packet data durationMs =>
      unfold Sender.discardFrom
      exact ih hgone htail

theorem Inv.enqueue (h : Inv c s) (item : SendItem) : Inv c (s.enqueue item).1 := by
  unfold Sender.enqueue
  cases hpush : s.queue.push item with
  | none => exact h
  | some queue =>
    have hitems : queue.items = s.queue.items ++ [item] := by
      unfold SendQueue.push at hpush
      split at hpush
      · simp at hpush
      · rw [← Option.some.inj hpush]
    refine ⟨?_, h.numbered, h.carried⟩
    show s.accepted ++ [item] = s.left.map Departure.item ++ queue.items
    rw [hitems, h.fifo, List.append_assoc]

theorem Inv.next (h : Inv c s) (event : Event) : Inv c (s.next event) := by
  cases event with
  | opus packet durationMs allocated =>
    simp only [Sender.next, sendOpusPacket]
    split
    · exact h
    · split
      · exact h
      · exact h.enqueue _
  | marker trackMeta allocated =>
    simp only [Sender.next, insertMarker]
    split
    · exact h
    · exact h.enqueue _
  | drain maxPackets outcomes => exact Inv.drainFrom outcomes maxPackets _ 0 0 h rfl
  | clear => exact Inv.discardFrom false _ h rfl
  | skip => exact Inv.discardFrom true _ h rfl
  | configure settings => exact ⟨h.fifo, h.numbered, h.carried⟩

theorem Inv.run (h : Inv c s) (events : List Event) : Inv c (events.foldl Sender.next s) := by
  induction events generalizing s with
  | nil => exact h
  | cons event events ih => exact ih (h.next event)

theorem sendQueuedPacket_isSome (h : sendQueuedPacket settings counters data o = .ok datagram) :
    datagram.isSome = settings.udpOpen := by
  unfold sendQueuedPacket at h
  cases hopen : settings.udpOpen with
  | false =>
    simp only [hopen, Bool.not_false, if_true] at h
    rw [← Except.ok.inj h]
    rfl
  | true =>
    simp only [hopen, Bool.not_true, Bool.false_eq_true, if_false] at h
    split at h
    · simp at h
    · split at h
      · simp at h
      · split at h
        · simp at h
        · split at h
          · rw [← Except.ok.inj h]
            rfl
          · simp at h

theorem drainFrom_failed {outcomes : Nat → Outcome} {maxPackets round packetsSent : Nat}
    {failure : Failure}
    (hlimit : ¬ (maxPackets ≠ 0 ∧ packetsSent ≥ maxPackets))
    (hsend : sendQueuedPacket s.settings s.counters data (outcomes round) = .error failure) :
    Sender.drainFrom outcomes maxPackets (.packet data durationMs :: rest) round packetsSent s =
      (s, failure.val) := by
  have hround : s.drainRound (.packet data durationMs) (outcomes round) = (s, failure.val) := by
    simp [Sender.drainRound, hsend]
  rw [Sender.drainFrom, if_neg hlimit]
  simp only [hround]
  rw [if_pos failure.property]

end Steps

/-- What the send queue owes its caller, from the counters `c` on. -/
structure Disciplined (c : Counters) (s : Sender) : Prop where
  /-- Items leave in the order in which they were accepted, each once. -/
  fifo : s.accepted = s.left.map Departure.item ++ s.queue.items
  /-- Audio leaves with consecutive numbers and timestamps by its duration. -/
  consecutive : (audioLeft s.left).IsChain NextAudio
  first : ∀ left ∈ (audioLeft s.left).head?,
    left.sequence = c.sequence ∧ left.timestamp = c.timestamp
  /-- Encrypted packets use the nonces from that of `c` on, one after the other. -/
  nonces : noncesOf (audioLeft s.left) =
    (List.range (noncesOf (audioLeft s.left)).length).map (fun i => c.nonce + UInt32.ofNat i)
  fresh : (noncesOf (audioLeft s.left)).length ≤ 2 ^ 32 → (noncesOf (audioLeft s.left)).Nodup
  /-- Every datagram carries the numbers of its item. -/
  carried : ∀ left ∈ audioLeft s.left, left.Carried

/-- **The discipline of the send queue**, in every run of queueing, draining with
any outcomes, clearing, skipping and changes of the settings; an audio item that
leaves is sent exactly when the socket is open, and a failed send ends the drain
with nothing changed. -/
theorem sendQueue_discipline (settings : Settings) (c : Counters) (events : List Event) :
    Disciplined c (events.foldl next (start settings c)) ∧
      (∀ (s : Sender) (data : Bytes) (o : Outcome) (datagram : Option Bytes),
        sendQueuedPacket s.settings s.counters data o = .ok datagram →
          datagram.isSome = s.settings.udpOpen) ∧
      ∀ (s : Sender) (outcomes : Nat → Outcome) (maxPackets round packetsSent : Nat)
        (data : Bytes) (durationMs : Nat) (rest : List SendItem) (failure : Failure),
        ¬ (maxPackets ≠ 0 ∧ packetsSent ≥ maxPackets) →
        sendQueuedPacket s.settings s.counters data (outcomes round) = .error failure →
          drainFrom outcomes maxPackets (.packet data durationMs :: rest) round packetsSent s =
            (s, failure.val) := by
  refine ⟨?_, fun s data o datagram h => sendQueuedPacket_isSome h, ?_⟩
  · have hstart : Inv c (start settings c) := ⟨rfl, rfl, by simp [start, audioLeft]⟩
    have hrun := hstart.run events
    obtain ⟨hchain, hfirst⟩ := hrun.numbered.isChain
    exact ⟨hrun.fifo, hchain, hfirst, hrun.numbered.nonces_eq, nonces_nodup hrun.numbered,
      hrun.carried⟩
  · intro s outcomes maxPackets round packetsSent data durationMs rest failure hlimit hsend
    exact drainFrom_failed hlimit hsend

/-- The audio of a list of items. -/
def audioData : List SendItem → List Bytes
  | [] => []
  | .packet data _ :: rest => data :: audioData rest
  | .marker _ :: rest => audioData rest

/-- The audio that was sent. -/
def sentData (s : Sender) : List Bytes :=
  (audioLeft s.left).filterMap (fun left => left.datagram.map (fun _ => left.data))

/-- Surroundings in which everything succeeds. -/
def calm : Outcome where
  dave := .ok
  allocated := true
  xchacha20poly1305 := fun _ _ _ payload => .ok (payload ++ List.replicate aeadTagSize 0)
  sendto := fun datagram => some datagram.length
  notify := .ok

/-- Without a socket the drain takes the audio from the queue and counts it, and
nothing is sent. -/
theorem drained_without_socket :
    ¬ ∀ events : List Event,
      audioData (events.foldl next (start ⟨false, 7, false, false, none⟩ ⟨0, 0, 1⟩)).accepted =
        sentData (events.foldl next (start ⟨false, 7, false, false, none⟩ ⟨0, 0, 1⟩)) ++ audioData
            (events.foldl next (start ⟨false, 7, false, false, none⟩ ⟨0, 0, 1⟩)).queue.items := by
  intro h
  have hrun := h [.opus [1, 2, 3] 20 true, .drain 0 (fun _ => calm)]
  exact absurd hrun (by decide)

end Sender

end Dcc.Voice
