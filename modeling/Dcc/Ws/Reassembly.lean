import Dcc.Ws.Recv

/-!
# Messages out of fragments

A message comes as one data frame, or as a first fragment and continuations, with
pings and pongs anywhere among them.  `Opens` are the frames before the last one,
`Closes` the last one, `Violates` the headers that the protocol does not allow at
that point.

* `recvRound_frame` — one such frame takes the loop one round further;
* `recvLoop_opens` — all of them take it to the fragments joined, every ping answered;
* `recv_reassembles` — then the last frame gives the message, and a header that breaks
  the protocol a network error, whatever follows it.
-/

namespace Dcc.WebSocket

/-! ## The frames of a message -/

/-- A control frame as the protocol wants it. -/
def Frame.IsControl (f : Frame) : Prop := f.header.fin = true ∧ f.payload.length ≤ 125

/-- The opcode of a first fragment. -/
def IsData (opcode : Fin 16) : Prop := opcode = opText ∨ opcode = opBinary

/-- Frames that leave a message open: from outside a message (`none`) or inside one
with its opcode, to outside or inside. -/
inductive Opens : Option (Fin 16) → List Frame → Option (Fin 16) → Prop
  | nil (state : Option (Fin 16)) : Opens state [] state
  | ping {state final : Option (Fin 16)} {f : Frame} {frames : List Frame}
      (hop : f.header.opcode = opPing) (hcontrol : f.IsControl) (h : Opens state frames final) :
      Opens state (f :: frames) final
  | pong {state final : Option (Fin 16)} {f : Frame} {frames : List Frame}
      (hop : f.header.opcode = opPong) (hcontrol : f.IsControl) (h : Opens state frames final) :
      Opens state (f :: frames) final
  | first {final : Option (Fin 16)} {f : Frame} {frames : List Frame}
      (hop : IsData f.header.opcode) (hfin : f.header.fin = false)
      (h : Opens (some f.header.opcode) frames final) : Opens none (f :: frames) final
  | more {opcode : Fin 16} {final : Option (Fin 16)} {f : Frame} {frames : List Frame}
      (hop : f.header.opcode = opContinuation) (hfin : f.header.fin = false)
      (h : Opens (some opcode) frames final) : Opens (some opcode) (f :: frames) final

/-- The frame that ends a message, and the opcode of the message. -/
inductive Closes : Option (Fin 16) → Frame → Fin 16 → Prop
  | whole {f : Frame} (hop : IsData f.header.opcode) (hfin : f.header.fin = true) :
      Closes none f f.header.opcode
  | last {opcode : Fin 16} {f : Frame} (hop : f.header.opcode = opContinuation)
      (hfin : f.header.fin = true) : Closes (some opcode) f opcode

/-- The headers that break the protocol, with `size` bytes of the message there. -/
inductive Violates (state : Option (Fin 16)) (size : Nat) (h : Header) : Prop
  | reserved (hbits : h.reserved ≠ 0)
  | orphan (hstate : state = none) (hop : h.opcode = opContinuation)
  | nested (hstate : state ≠ none) (hop : IsData h.opcode)
  | fragmentedControl (hop : h.opcode ≥ 0x8) (hfin : h.fin = false)
  | longControl (hop : h.opcode ≥ 0x8) (hlong : h.length > 125)
  | tooLong (hop : IsData h.opcode ∨ h.opcode = opContinuation)
      (hlong : size + h.length > maxMessageBytes)

/-- The payloads of the data frames, joined. -/
def dataOf (frames : List Frame) : Bytes :=
  frames.flatMap fun f =>
    if f.header.opcode = opPing ∨ f.header.opcode = opPong then [] else f.payload

/-- The payloads of the pings. -/
def pingsOf (frames : List Frame) : List Bytes :=
  (frames.filter fun f => f.header.opcode = opPing).map Frame.payload

/-- Nothing outside the loop fails in a round. -/
structure Round.Good (r : Round) : Prop where
  payload : r.payload = true
  fragment : r.fragment = true
  retained : r.send.retained = .ok
  frame : r.send.frame = true
  mask : r.send.mask.isSome = true
  locked : r.send.locked = true
  written : r.send.written = true

/-- The locals of the loop between two frames. -/
def fragmentOf (state : Option (Fin 16)) (data : Bytes) : Fragment :=
  match state with
  | none => ⟨[], opText, false⟩
  | some opcode => ⟨data, opcode, true⟩

/-- The connection between two frames: open, with `rest` still to be read. -/
structure Ws.Ready (ws : Ws) (rest : Bytes) : Prop where
  isOpen : ws.isOpen = true
  live : ws.source.Live
  bytes : ws.source.bytes = rest

section Rounds

variable {ws : Ws} {round : Round} {rest : Bytes} {f : Frame}

theorem send_pong (hopen : ws.isOpen = true) (round : SendRound) {data : Bytes}
    (hshort : data.length ≤ 125) :
    (∃ status, ws.send round opPong data = (ws, status) ∧ status ≠ .ok ∧
        ¬ (round.retained = .ok ∧ round.frame = true ∧ round.mask.isSome = true ∧
          round.locked = true ∧ round.written = true)) ∨
      ∃ mask : Mask, ws.send round opPong data =
        ({ ws with sent := ws.sent ++ [clientFrame opPong mask data] }, .ok) := by
  have hfits : ¬ data.length > wordMax - clientHeaderLength data.length := by
    have hlarge : ¬ data.length > 65535 := by omega
    have hword : ¬ data.length ≥ 126 := by omega
    rw [clientHeaderLength, if_neg hlarge, if_neg hword]
    simp only [wordMax, wordSize]
    omega
  have hstill : ¬ ws.isOpen = false := by simp [hopen]
  unfold Ws.send
  split
  · next hretained => exact Or.inl ⟨_, rfl, hretained, fun h => hretained h.1⟩
  · split
    · next hframe => exact Or.inl ⟨_, rfl, by decide, by simp [hframe]⟩
    · split
      · next hmask => exact Or.inl ⟨_, rfl, by decide, by simp [hmask]⟩
      · next mask hmask =>
        split
        · next hlocked => exact Or.inl ⟨_, rfl, by decide, by simp [hlocked]⟩
        · split
          · next hwritten => exact Or.inl ⟨_, rfl, by decide, by simp [hwritten]⟩
          · exact Or.inr ⟨mask, rfl⟩

/-- A whole frame takes the loop to what it does with the frame. -/
theorem recvRound_frame (hready : ws.Ready (f.encode ++ rest)) (fragment : Fragment)
    (hlength : f.payload.length ≤ maxMessageBytes)
    (hcontrol : f.header.opcode ≥ 0x8 → f.IsControl) :
    (¬ round.Good ∧ ∃ ws' status, ws.recvRound round fragment = .done ws' (.failed status)) ∨
      ∃ ws' : Ws, ws'.Ready rest ∧ ws'.sent = ws.sent ∧ ws.recvRound round fragment =
          ws'.handle round fragment ⟨f.header.fin, f.header.opcode, f.payload⟩ := by
  rcases readFrame_frame round hready.live hready.bytes hlength hcontrol with
    ⟨hmemory, s', hread⟩ | ⟨s', hread, hbytes, hlive⟩
  · refine Or.inl ⟨?_, ?_⟩
    · intro hgood
      rw [hgood.payload] at hmemory
      exact Bool.noConfusion hmemory
    · exact ⟨_, _, by rw [Ws.recvRound, hread]⟩
  · refine Or.inr ⟨{ ws with source := s' }, ⟨hready.isOpen, hlive, hbytes⟩, rfl, ?_⟩
    rw [Ws.recvRound, hread]

theorem appendFragment_ok (round : Round) {buffer payload : Bytes}
    (hfits : (buffer ++ payload).length ≤ maxMessageBytes) :
    (¬ round.Good ∧ appendFragment round buffer payload = .error .nomem) ∨
      appendFragment round buffer payload = .ok (buffer ++ payload) := by
  rw [List.length_append] at hfits
  have hlegal : ¬ (payload.length > maxMessageBytes ∨
      buffer.length > maxMessageBytes - payload.length) := by omega
  unfold appendFragment
  rw [if_neg hlegal]
  cases hmemory : round.fragment with
  | false =>
    refine Or.inl ⟨?_, rfl⟩
    intro hgood
    rw [hgood.fragment] at hmemory
    exact Bool.noConfusion hmemory
  | true => exact Or.inr rfl

/-- The pongs for the pings of some frames, each with its mask. -/
def pongs (masks : List Mask) (frames : List Frame) : List Bytes :=
  List.zipWith (fun (mask : Mask) data => clientFrame opPong mask data) masks (pingsOf frames)

/-- What one frame that leaves a message open does to the loop: it fails because
something outside did, or goes on with the frame's data and a pong for a ping. -/
def Continues (ws : Ws) (round : Round) (f : Frame) (rest : Bytes) (before after : Fragment) :
    Prop :=
  (¬ round.Good ∧ ∃ ws' status, ws.recvRound round before = .done ws' (.failed status)) ∨
    ∃ (ws' : Ws) (masks : List Mask), ws'.Ready rest ∧
      masks.length = (pingsOf [f]).length ∧ ws'.sent = ws.sent ++ pongs masks [f] ∧
      ws.recvRound round before = .again ws' after

theorem continues_ping (hready : ws.Ready (f.encode ++ rest)) (hop : f.header.opcode = opPing)
    (hcontrol : f.IsControl) (fragment : Fragment) :
    Continues ws round f rest fragment fragment := by
  have hlength : f.payload.length ≤ maxMessageBytes :=
    Nat.le_trans hcontrol.2 (by decide)
  have hpings : pingsOf [f] = [f.payload] := by simp [pingsOf, hop]
  rcases recvRound_frame hready fragment hlength (fun _ => hcontrol) with
    hfail | ⟨ws', hready', hsent, hround⟩
  · exact Or.inl hfail
  · rcases send_pong hready'.isOpen round.send hcontrol.2 with
      ⟨status, hsend, hstatus, hbad⟩ | ⟨mask, hsend⟩
    · refine Or.inl ⟨?_, ws', status, ?_⟩
      · intro hgood
        exact hbad ⟨hgood.retained, hgood.frame, hgood.mask, hgood.locked, hgood.written⟩
      · rw [hround, Ws.handle, if_pos hop, hsend]
        cases status with
        | ok => exact absurd rfl hstatus
        | _ => rfl
    · refine Or.inr ⟨{ ws' with sent := ws'.sent ++ [clientFrame opPong mask f.payload] }, [mask],
        ⟨hready'.isOpen, hready'.live, hready'.bytes⟩, by rw [hpings]; rfl, ?_, ?_⟩
      · rw [pongs, hpings, ← hsent]
        rfl
      · rw [hround, Ws.handle, if_pos hop, hsend]

theorem continues_pong (hready : ws.Ready (f.encode ++ rest)) (hop : f.header.opcode = opPong)
    (hcontrol : f.IsControl) (fragment : Fragment) :
    Continues ws round f rest fragment fragment := by
  have hlength : f.payload.length ≤ maxMessageBytes :=
    Nat.le_trans hcontrol.2 (by decide)
  have hpings : pingsOf [f] = [] := by simp [pingsOf, hop, opPong, opPing]
  rcases recvRound_frame hready fragment hlength (fun _ => hcontrol) with
    hfail | ⟨ws', hready', hsent, hround⟩
  · exact Or.inl hfail
  · refine Or.inr ⟨ws', [], hready', by rw [hpings]; rfl, by simp [hsent, pongs], ?_⟩
    rw [hround]
    simp [Ws.handle, hop, opPong, opPing]

theorem IsData.ne {opcode : Fin 16} (h : IsData opcode) :
    opcode ≠ opPing ∧ opcode ≠ opPong ∧ opcode ≠ opClose ∧ opcode ≠ opContinuation ∧
      ¬ opcode ≥ 0x8 := by
  rcases h with rfl | rfl <;> decide

theorem handle_data {fragment : Fragment} {g : Incoming} (hop : IsData g.opcode) :
    ws.handle round fragment g = if fragment.inside then .done ws (.failed .network)
      else if g.fin then .done ws (.message g.opcode g.payload)
      else
        match appendFragment round fragment.data g.payload with
        | .error status => .done ws (.failed status)
        | .ok data => .again ws ⟨data, g.opcode, true⟩ := by
  obtain ⟨hping, hpong, hclose, -, -⟩ := hop.ne
  have hdata : g.opcode = opText ∨ g.opcode = opBinary := hop
  calc ws.handle round fragment g = _ := if_neg hping
    _ = _ := if_neg hpong
    _ = _ := if_neg hclose
    _ = _ := if_pos hdata

theorem handle_continuation {fragment : Fragment} {g : Incoming} (hop : g.opcode = opContinuation) :
    ws.handle round fragment g = if fragment.inside = false then .done ws (.failed .network)
      else
        match appendFragment round fragment.data g.payload with
        | .error status => .done ws (.failed status)
        | .ok data =>
          if g.fin = false then .again ws ⟨data, fragment.opcode, true⟩
          else .done ws (.message fragment.opcode data) := by
  have hother : ∀ opcode : Fin 16, opcode ≠ opContinuation → ¬ g.opcode = opcode := by
    intro opcode hne heq
    exact hne (heq.symm.trans hop)
  have hdata : ¬ (g.opcode = opText ∨ g.opcode = opBinary) := by
    rintro (h | h)
    · exact hother opText (by decide) h
    · exact hother opBinary (by decide) h
  calc ws.handle round fragment g = _ := if_neg (hother opPing (by decide))
    _ = _ := if_neg (hother opPong (by decide))
    _ = _ := if_neg (hother opClose (by decide))
    _ = _ := if_neg hdata
    _ = _ := if_pos hop

theorem continues_first (hready : ws.Ready (f.encode ++ rest)) (hop : IsData f.header.opcode)
    (hfin : f.header.fin = false) (hfits : f.payload.length ≤ maxMessageBytes) (data : Bytes) :
    Continues ws round f rest (fragmentOf none data)
      (fragmentOf (some f.header.opcode) f.payload) := by
  obtain ⟨hping, -, -, -, hlow⟩ := hop.ne
  have hpings : pingsOf [f] = [] := by simp [pingsOf, hping]
  rcases recvRound_frame hready (fragmentOf none data) hfits (fun h => absurd h hlow) with
    hfail | ⟨ws', hready', hsent, hround⟩
  · exact Or.inl hfail
  · have hnew : ([] ++ f.payload : Bytes).length ≤ maxMessageBytes := hfits
    rw [handle_data hop] at hround
    simp only [fragmentOf, hfin, Bool.false_eq_true, if_false] at hround
    rcases appendFragment_ok round hnew with ⟨hbad, happend⟩ | happend
    · exact Or.inl ⟨hbad, ws', .nomem, by simp only [fragmentOf, hround, happend]⟩
    · refine Or.inr ⟨ws', [], hready', by rw [hpings]; rfl, by simp [hsent, pongs], ?_⟩
      simp only [fragmentOf, hround, happend, List.nil_append]

theorem continues_more (hready : ws.Ready (f.encode ++ rest))
    (hop : f.header.opcode = opContinuation) (hfin : f.header.fin = false) {opcode : Fin 16}
    {data : Bytes} (hfits : (data ++ f.payload).length ≤ maxMessageBytes) :
    Continues ws round f rest (fragmentOf (some opcode) data)
      (fragmentOf (some opcode) (data ++ f.payload)) := by
  have hlow : ¬ f.header.opcode ≥ 0x8 := by rw [hop]; decide
  have hpings : pingsOf [f] = [] := by simp [pingsOf, hop, opContinuation, opPing]
  have hlength : f.payload.length ≤ maxMessageBytes := by
    rw [List.length_append] at hfits
    omega
  rcases recvRound_frame hready (fragmentOf (some opcode) data) hlength
    (fun h => absurd h hlow) with hfail | ⟨ws', hready', hsent, hround⟩
  · exact Or.inl hfail
  · rw [handle_continuation hop] at hround
    simp only [fragmentOf, hfin, Bool.true_eq_false, if_false, if_true] at hround
    rcases appendFragment_ok round hfits with ⟨hbad, happend⟩ | happend
    · exact Or.inl ⟨hbad, ws', .nomem, by simp only [fragmentOf, hround, happend]⟩
    · refine Or.inr ⟨ws', [], hready', by rw [hpings]; rfl, by simp [hsent, pongs], ?_⟩
      simp only [fragmentOf, hround, happend]

end Rounds

/-! ## The loop over the frames of a message -/

section Loop

variable {ws : Ws} {rest : Bytes} {frames : List Frame}

/-- What several such frames do to the loop, with `fuel` rounds left after them. -/
def Passes (ws : Ws) (rounds : Nat → Round) (frames : List Frame) (rest : Bytes) (fuel i : Nat)
    (before after : Fragment) : Prop :=
  ((¬ ∀ n, (rounds n).Good) ∧ ∃ ws' status,
      ws.recvLoop rounds (frames.length + fuel) i before = some (ws', .failed status)) ∨
    ∃ (ws' : Ws) (masks : List Mask), ws'.Ready rest ∧
      masks.length = (pingsOf frames).length ∧ ws'.sent = ws.sent ++ pongs masks frames ∧
      ws.recvLoop rounds (frames.length + fuel) i before =
        ws'.recvLoop rounds fuel (i + frames.length) after

theorem Continues.passes {rounds : Nat → Round} {f : Frame} {fuel i : Nat}
    {before after final : Fragment}
    (hfirst : Continues ws (rounds i) f (encodeAll frames ++ rest) before after)
    (hrest : ∀ ws' : Ws, ws'.Ready (encodeAll frames ++ rest) →
      Passes ws' rounds frames rest fuel (i + 1) after final) :
    Passes ws rounds (f :: frames) rest fuel i before final := by
  have hfuel : (f :: frames).length + fuel = frames.length + fuel + 1 := by
    rw [List.length_cons]
    omega
  have hpings : pingsOf (f :: frames) = pingsOf [f] ++ pingsOf frames := by
    simp only [pingsOf, ← List.map_append, ← List.filter_append, List.singleton_append]
  rcases hfirst with ⟨hbad, ws', status, hround⟩ | ⟨ws₁, masks₁, hready₁, hlen₁, hsent₁, hround⟩
  · refine Or.inl ⟨fun hgood => hbad (hgood i), ws', status, ?_⟩
    rw [hfuel, Ws.recvLoop, hround]
  · rcases hrest ws₁ hready₁ with ⟨hbad, ws', status, hloop⟩ |
      ⟨ws', masks₂, hready', hlen₂, hsent₂, hloop⟩
    · refine Or.inl ⟨hbad, ws', status, ?_⟩
      rw [hfuel, Ws.recvLoop, hround, ← hloop]
    · refine Or.inr ⟨ws', masks₁ ++ masks₂, hready', ?_, ?_, ?_⟩
      · rw [hpings, List.length_append, List.length_append, hlen₁, hlen₂]
      · rw [hsent₂, hsent₁, List.append_assoc, pongs, pongs, pongs, hpings,
          List.zipWith_append hlen₁]
      · rw [hfuel, Ws.recvLoop, hround, List.length_cons,
          show i + (frames.length + 1) = i + 1 + frames.length by omega]
        exact hloop

/-- **Frames that leave a message open take the loop to their fragments joined**, with
every ping answered, or to a failure that came from outside. -/
theorem recvLoop_opens (rounds : Nat → Round) {state final : Option (Fin 16)}
    (h : Opens state frames final) {data : Bytes} (hready : ws.Ready (encodeAll frames ++ rest))
    (hfits : (data ++ dataOf frames).length ≤ maxMessageBytes) (fuel i : Nat)
    (houtside : state = none → data = []) :
    Passes ws rounds frames rest fuel i (fragmentOf state data)
      (fragmentOf final (data ++ dataOf frames)) := by
  induction h generalizing ws data i with
  | nil state =>
    refine Or.inr ⟨ws, [], hready, rfl, by simp [pongs, pingsOf], ?_⟩
    simp [dataOf]
  | @ping state final f frames hop hcontrol h ih =>
    have hnone : dataOf (f :: frames) = dataOf frames := by simp [dataOf, hop]
    rw [hnone] at hfits ⊢
    rw [encodeAll, List.flatMap_cons, List.append_assoc] at hready
    exact (continues_ping hready hop hcontrol _).passes
      fun ws' hready' => ih hready' hfits (i + 1) houtside
  | @pong state final f frames hop hcontrol h ih =>
    have hnone : dataOf (f :: frames) = dataOf frames := by simp [dataOf, hop]
    rw [hnone] at hfits ⊢
    rw [encodeAll, List.flatMap_cons, List.append_assoc] at hready
    exact (continues_pong hready hop hcontrol _).passes
      fun ws' hready' => ih hready' hfits (i + 1) houtside
  | @first final f frames hop hfin h ih =>
    obtain rfl := houtside rfl
    have hmore : dataOf (f :: frames) = f.payload ++ dataOf frames := by
      simp [dataOf, hop.ne.1, hop.ne.2.1]
    rw [hmore, List.nil_append] at hfits ⊢
    rw [encodeAll, List.flatMap_cons, List.append_assoc] at hready
    have hlength : f.payload.length ≤ maxMessageBytes := by
      rw [List.length_append] at hfits
      omega
    exact (continues_first hready hop hfin hlength []).passes
      fun ws' hready' => ih hready' hfits (i + 1) (by simp)
  | @more opcode final f frames hop hfin h ih =>
    have hmore : dataOf (f :: frames) = f.payload ++ dataOf frames := by
      simp [dataOf, hop, opContinuation, opPing, opPong]
    rw [hmore, ← List.append_assoc] at hfits ⊢
    rw [encodeAll, List.flatMap_cons, List.append_assoc] at hready
    have hlength : (data ++ f.payload).length ≤ maxMessageBytes := by
      rw [List.length_append] at hfits
      omega
    exact (continues_more hready hop hfin hlength).passes
      fun ws' hready' => ih hready' hfits (i + 1) (by simp)

end Loop

/-! ## The frame that ends the loop -/

section Ending

variable {ws : Ws} {round : Round} {rest : Bytes} {f : Frame} {state : Option (Fin 16)}
  {data : Bytes}

theorem recvRound_closes {opcode : Fin 16} (h : Closes state f opcode)
    (hready : ws.Ready (f.encode ++ rest))
    (hfits : (data ++ f.payload).length ≤ maxMessageBytes) (houtside : state = none → data = [])
    (hgood : round.Good) :
    ∃ ws' : Ws, ws'.source.bytes = rest ∧ ws'.sent = ws.sent ∧
      ws.recvRound round (fragmentOf state data) =
        .done ws' (.message opcode (data ++ f.payload)) := by
  have hlength : f.payload.length ≤ maxMessageBytes := by
    rw [List.length_append] at hfits
    omega
  have hlow : ¬ f.header.opcode ≥ 0x8 := by
    cases h with
    | whole hop _ => exact hop.ne.2.2.2.2
    | last hop _ =>
      rw [hop]
      decide
  rcases recvRound_frame hready (fragmentOf state data) hlength (fun h => absurd h hlow) with
    ⟨hbad, -⟩ | ⟨ws', hready', hsent, hround⟩
  · exact absurd hgood hbad
  · refine ⟨ws', hready'.bytes, hsent, ?_⟩
    cases h with
    | whole hop hfin =>
      obtain rfl := houtside rfl
      rw [hround, handle_data hop]
      simp [fragmentOf, hfin]
    | last hop hfin =>
      rcases appendFragment_ok round hfits with ⟨hbad, -⟩ | happend
      · exact absurd hgood hbad
      · rw [hround, handle_continuation hop]
        simp [fragmentOf, happend, hfin]

theorem readPayload_cases (s : Source) (round : Round) (h : Header) :
    ∃ s', readPayload s round h.fin h.opcode h.masked h.length = (s', .error .network) ∨
      (round.payload = false ∧
        readPayload s round h.fin h.opcode h.masked h.length = (s', .error .nomem)) ∨
      ∃ payload : Bytes, payload.length = h.length ∧
        readPayload s round h.fin h.opcode h.masked h.length =
          (s', .ok ⟨h.fin, h.opcode, payload⟩) := by
  unfold readPayload
  split
  · next s₁ hmask => exact ⟨s₁, Or.inl rfl⟩
  · next s₁ mask hmask =>
    split
    · next hzero => exact ⟨s₁, Or.inr (Or.inr ⟨[], hzero.symm, rfl⟩)⟩
    · split
      · next hmemory => exact ⟨s₁, Or.inr (Or.inl ⟨hmemory, rfl⟩)⟩
      · split
        · next s₂ hread => exact ⟨s₂, Or.inl rfl⟩
        · next s₂ payload hread =>
          refine ⟨s₂, Or.inr (Or.inr ⟨_, ?_, rfl⟩)⟩
          split
          · rw [length_xorMask]
            exact (Source.readExact_length hread).1
          · exact (Source.readExact_length hread).1

theorem handle_violates {h : Header} (hviolates : Violates state data.length h)
    (hplain : h.reserved = 0) (hlength : ¬ h.length > maxMessageBytes)
    (hcontrol : ¬ (h.opcode ≥ 0x8 ∧ (h.fin = false ∨ h.length > 125)))
    (houtside : state = none → data = []) {payload : Bytes} (hpayload : payload.length = h.length) :
    ws.handle round (fragmentOf state data) ⟨h.fin, h.opcode, payload⟩ =
      .done ws (.failed .network) := by
  have hnested : IsData h.opcode → state ≠ none →
      ws.handle round (fragmentOf state data) ⟨h.fin, h.opcode, payload⟩ =
        .done ws (.failed .network) := by
    intro hop hstate
    obtain ⟨opcode, rfl⟩ := Option.ne_none_iff_exists'.mp hstate
    rw [handle_data hop]
    rfl
  have horphan : h.opcode = opContinuation → state = none →
      ws.handle round (fragmentOf state data) ⟨h.fin, h.opcode, payload⟩ =
        .done ws (.failed .network) := by
    intro hop hstate
    rw [handle_continuation hop, hstate]
    rfl
  cases hviolates with
  | reserved hbits => exact absurd hplain hbits
  | orphan hstate hop => exact horphan hop hstate
  | nested hstate hop => exact hnested hop hstate
  | fragmentedControl hop hfin => exact absurd ⟨hop, Or.inl hfin⟩ hcontrol
  | longControl hop hlong => exact absurd ⟨hop, Or.inr hlong⟩ hcontrol
  | tooLong hop hlong =>
    cases state with
    | none =>
      rcases hop with hop | hop
      · rw [houtside rfl, List.length_nil] at hlong
        omega
      · exact horphan hop rfl
    | some opcode =>
      rcases hop with hop | hop
      · exact hnested hop (by simp)
      · have hlarge : payload.length > maxMessageBytes ∨
            data.length > maxMessageBytes - payload.length := by omega
        have happend : appendFragment round data payload = .error .network := by
          rw [appendFragment, if_pos hlarge]
        rw [handle_continuation hop]
        simp only [fragmentOf, Bool.true_eq_false, if_false, happend]

/-- **A header that breaks the protocol ends the loop**, whatever follows it, and with a
network error unless memory ran out. -/
theorem recvRound_violates (round : Round) {h : Header} (hviolates : Violates state data.length h)
    (hready : ws.Ready (h.encode ++ rest)) (houtside : state = none → data = []) :
    ∃ ws' status, ws.recvRound round (fragmentOf state data) = .done ws' (.failed status) ∧
      (round.Good → status = .network) := by
  by_cases hplain : h.reserved = 0
  · obtain ⟨s', -, -, hread⟩ := readFrame_header round hready.live hready.bytes hplain
    by_cases hlength : h.length > maxMessageBytes
    · rw [if_pos hlength] at hread
      exact ⟨_, _, by rw [Ws.recvRound, hread], fun _ => rfl⟩
    · by_cases hcontrol : h.opcode ≥ 0x8 ∧ (h.fin = false ∨ h.length > 125)
      · rw [if_neg hlength, if_pos hcontrol] at hread
        exact ⟨_, _, by rw [Ws.recvRound, hread], fun _ => rfl⟩
      · rw [if_neg hlength, if_neg hcontrol] at hread
        obtain ⟨s₁, hpayload⟩ := readPayload_cases s' round h
        rcases hpayload with hpayload | ⟨hmemory, hpayload⟩ | ⟨payload, hlong, hpayload⟩
        · exact ⟨_, _, by rw [Ws.recvRound, hread, hpayload], fun _ => rfl⟩
        · refine ⟨_, _, by rw [Ws.recvRound, hread, hpayload], ?_⟩
          intro hgood
          rw [hgood.payload] at hmemory
          exact Bool.noConfusion hmemory
        · refine ⟨{ ws with source := s₁ }, .network, ?_, fun _ => rfl⟩
          rw [Ws.recvRound, hread, hpayload]
          exact handle_violates hviolates hplain hlength hcontrol houtside hlong
  · obtain ⟨s', hread⟩ := readFrame_reserved round hready.live hready.bytes hplain
    exact ⟨_, _, by rw [Ws.recvRound, hread], fun _ => rfl⟩

end Ending

theorem Opens.dataOf_eq_nil {state : Option (Fin 16)} {frames : List Frame}
    (h : Opens state frames none) : dataOf frames = [] := by
  generalize hfinal : (none : Option (Fin 16)) = final at h
  have hboth : state = none ∧ dataOf frames = [] := by
    induction h with
    | nil state => exact ⟨hfinal.symm, rfl⟩
    | @ping state final f frames hop _ _ ih =>
      refine ⟨(ih hfinal).1, ?_⟩
      simpa [dataOf, hop] using (ih hfinal).2
    | @pong state final f frames hop _ _ ih =>
      refine ⟨(ih hfinal).1, ?_⟩
      simpa [dataOf, hop] using (ih hfinal).2
    | first _ _ _ ih => exact absurd (ih hfinal).1 (by simp)
    | more _ _ _ ih => exact absurd (ih hfinal).1 (by simp)
  exact hboth.2

theorem length_encodeAll (frames : List Frame) : frames.length ≤ (encodeAll frames).length := by
  induction frames with
  | nil => exact Nat.le_refl _
  | cons f frames ih =>
    have htwo : 1 ≤ f.encode.length := by simp [Frame.encode, Header.encode]
    rw [encodeAll, List.flatMap_cons, List.length_append, List.length_cons]
    rw [encodeAll] at ih
    omega

theorem dataOf_closes {state : Option (Fin 16)} {last : Frame} {opcode : Fin 16}
    (h : Closes state last opcode) (frames : List Frame) :
    dataOf (frames ++ [last]) = dataOf frames ++ last.payload := by
  have hdata : ¬ (last.header.opcode = opPing ∨ last.header.opcode = opPong) := by
    cases h with
    | whole hop _ => exact not_or.mpr ⟨hop.ne.1, hop.ne.2.1⟩
    | last hop _ =>
      rw [hop]
      decide
  simp [dataOf, hdata]

/-- **Reassembly.**  Let frames leave a message open, or no message begun, however their
bytes are split between the leftover of the handshake and the reads.  If the next frame
ends the message, `dcc_ws_recv` returns the fragments joined under the first one's
opcode, has answered the pings in order, and has read nothing further.  If instead a
header breaks the protocol there, it never returns a message, and returns a network
error unless the allocator or the socket failed before. -/
theorem recv_reassembles {ws : Ws} {frames : List Frame} {state : Option (Fin 16)}
    (hopen : ws.isOpen = true) (hlive : ws.source.Live) (hframes : Opens none frames state)
    (hfits : (dataOf frames).length ≤ maxMessageBytes) (rounds : Nat → Round) :
    (∀ last opcode rest, Closes state last opcode →
      (dataOf (frames ++ [last])).length ≤ maxMessageBytes →
      ws.source.bytes = encodeAll (frames ++ [last]) ++ rest → (∀ n, (rounds n).Good) →
      ∃ (ws' : Ws) (masks : List Mask),
        ws.recv rounds = some (ws', .message opcode (dataOf (frames ++ [last]))) ∧
        masks.length = (pingsOf frames).length ∧ ws'.sent = ws.sent ++ pongs masks frames ∧
        ws'.source.bytes = rest) ∧
    (∀ header tail, Violates state (dataOf frames).length header →
      ws.source.bytes = encodeAll frames ++ (header.encode ++ tail) →
      ∃ ws' status, ws.recv rounds = some (ws', .failed status) ∧
        ((∀ n, (rounds n).Good) → status = .network)) := by
  have hstill : ¬ ws.isOpen = false := by simp [hopen]
  have hfuel : ∀ rest, ws.source.bytes = encodeAll frames ++ rest →
      ∃ fuel, ws.source.bytes.length + 1 = frames.length + (fuel + 1) := by
    intro rest hbytes
    have hframes := length_encodeAll frames
    refine ⟨ws.source.bytes.length - frames.length, ?_⟩
    rw [hbytes, List.length_append]
    omega
  have hinside : state = none → dataOf frames = [] := by
    rintro rfl
    exact hframes.dataOf_eq_nil
  have hbegun : ([] ++ dataOf frames : Bytes).length ≤ maxMessageBytes := hfits
  constructor
  · intro last opcode rest hcloses htotal hbytes hgood
    rw [dataOf_closes hcloses] at htotal ⊢
    rw [encodeAll, List.flatMap_append, List.flatMap_singleton, List.append_assoc,
      ← encodeAll] at hbytes
    obtain ⟨fuel, hfuel⟩ := hfuel _ hbytes
    rcases recvLoop_opens rounds hframes ⟨hopen, hlive, hbytes⟩ hbegun (fuel + 1) 0
      (fun _ => rfl) with ⟨hbad, -⟩ | ⟨ws₁, masks, hready, hlength, hsent, hloop⟩
    · exact absurd hgood hbad
    · obtain ⟨ws', hrest, hsent', hround⟩ := recvRound_closes hcloses hready htotal hinside
        (hgood (0 + frames.length))
      refine ⟨ws', masks, ?_, hlength, hsent'.trans hsent, hrest⟩
      rw [Ws.recv, if_neg hstill, hfuel]
      refine hloop.trans ?_
      rw [Ws.recvLoop, List.nil_append, hround]
  · intro header tail hviolates hbytes
    obtain ⟨fuel, hfuel⟩ := hfuel _ hbytes
    rw [Ws.recv, if_neg hstill, hfuel]
    rcases recvLoop_opens rounds hframes ⟨hopen, hlive, hbytes⟩ hbegun (fuel + 1) 0
      (fun _ => rfl) with
      ⟨hbad, ws', status, hloop⟩ | ⟨ws₁, masks, hready, -, -, hloop⟩
    · exact ⟨ws', status, hloop, fun hgood => absurd hgood hbad⟩
    · obtain ⟨ws', status, hround, hnetwork⟩ := recvRound_violates
        (rounds (0 + frames.length)) hviolates hready hinside
      refine ⟨ws', status, hloop.trans ?_, fun hgood => hnetwork (hgood _)⟩
      rw [Ws.recvLoop, List.nil_append, hround]

theorem shortFrame_length (fin : Bool) (opcode : Fin 16) (payload : Bytes)
    (h : payload.length ≤ 125) :
    payload.length = (⟨fin, 0, opcode, false, .short, payload.length, h⟩ : Header).length := rfl

/-- An unmasked frame with a short payload. -/
def shortFrame (fin : Bool) (opcode : Fin 16) (payload : Bytes) (h : payload.length ≤ 125) :
    Frame where
  header := ⟨fin, 0, opcode, false, .short, payload.length, h⟩
  mask := []
  payload := payload
  plain := rfl
  maskLength := rfl
  payloadLength := shortFrame_length fin opcode payload h

theorem length_calmMask : ([1, 2, 3, 4] : Bytes).length = 4 := rfl

/-- Nothing fails, and every mask is the same. -/
def calmRounds (_ : Nat) : Round :=
  ⟨true, true, ⟨.ok, true, some ⟨[1, 2, 3, 4], length_calmMask⟩, true, true⟩⟩

/-- "Hey" in two fragments with a ping between them; the handshake left three bytes and
the rest comes in two reads. -/
def heyInPieces : Ws where
  source := ⟨[0x01, 0x02, 0x48], [[0x65, 0x89, 0x01], [0x2a, 0x80, 0x01, 0x79]]⟩
  isOpen := true
  sent := []
  closeCode := 0
  closeReason := []

theorem recv_reassembles_hey :
    ∃ ws', heyInPieces.recv calmRounds = some (ws', .message opText [0x48, 0x65, 0x79]) ∧
      ws'.sent.length = 1 := by
  have hopens : Opens none
      [shortFrame false opText [0x48, 0x65] (by decide), shortFrame true opPing [0x2a] (by decide)]
      (some opText) :=
    .first (Or.inl rfl) rfl (.ping rfl ⟨rfl, by decide⟩ (.nil _))
  have hlive : heyInPieces.source.Live := by
    unfold Source.Live
    decide
  obtain ⟨ws', masks, hrecv, hmasks, hsent, -⟩ :=
    (recv_reassembles rfl hlive hopens (by decide) calmRounds).1
      (shortFrame true opContinuation [0x79] (by decide)) opText [] (.last rfl rfl) (by decide) rfl
      (fun _ => ⟨rfl, rfl, rfl, rfl, rfl, rfl, rfl⟩)
  refine ⟨ws', hrecv, ?_⟩
  have hpings : masks.length = 1 := hmasks
  rw [hsent]
  simp [pongs, hpings, heyInPieces, pingsOf, shortFrame, opPing, opText]

end Dcc.WebSocket
