import Dcc.Ws.HeaderText
import Dcc.Ws.Wire

/-!
# What the handshake leaves behind

`dcc_ws_read_handshake` reads chunks into a growing buffer until it holds a blank
line, appends a terminator for the string functions, checks the status line and
the accept line, and keeps what it had read past the header for the frames.
The place of the blank line is kept as a pointer into the buffer, so addresses
are part of the model: growing a buffer gives it the address that `realloc`
comes back with.

* `readResponse_spec` — what was read, up to the chunk with the first blank line;
* `handshake_leftover_iff` — a handshake keeps exactly the bytes behind the header,
  and looked at nothing else, when and only when the terminator left the buffer
  where it was and the header itself has a status code and an accept line.
-/

namespace Dcc.WebSocket

/-- `DCC_WS_MAX_HEADER_BYTES`. -/
def maxHeaderBytes : Nat := 16384

/-- `sizeof(chunk)`. -/
def chunkSize : Nat := 512

/-- The first capacity of a buffer. -/
def firstCap : Nat := 1024

/-- What one `dcc_conn_read` gives; an empty chunk is a failure or the end of the stream. -/
abbrev Chunk := { bytes : Bytes // bytes.length ≤ chunkSize }

/-- The bytes of some chunks. -/
def chunkBytes (chunks : List Chunk) : Bytes := (chunks.map Subtype.val).flatten

/-- `dcc_ws_buffer_t`: `data`, its first `len` bytes, and `cap`. -/
structure Buffer where
  address : UInt64
  bytes : Bytes
  cap : Nat
  fits : bytes.length ≤ cap

/-- `{0}`. -/
def Buffer.empty : Buffer := ⟨0, [], 0, le_refl 0⟩

/-- What the surroundings of the handshake come back with: `realloc` for a buffer that
is to hold so many bytes, `dcc_ws_accept_for_key`, and the memory for `rx_buf`. -/
structure Surroundings where
  realloc : Nat → Option UInt64
  expected : Option Bytes
  leftover : Bool

/-- The loop that doubles `next_cap`; a capacity from `firstCap` on is past every
`size_t` after fewer rounds than `fuel`. -/
def growCap : Nat → Nat → Nat → Option Nat
  | 0, _, _ => none
  | fuel + 1, nextCap, needed =>
    if nextCap ≥ needed then some nextCap
    else if nextCap > wordMax / 2 then none
    else growCap fuel (nextCap * 2) needed

variable {fuel nextCap needed cap : Nat}

theorem growCap_enough (h : growCap fuel nextCap needed = some cap) :
    needed ≤ cap := by
  induction fuel generalizing nextCap with
  | zero => simp [growCap] at h
  | succ fuel ih =>
    rw [growCap] at h
    split at h
    · rename_i henough
      obtain rfl := Option.some.inj h
      exact henough
    · split at h
      · simp at h
      · exact ih h

/-- `dcc_ws_buffer_append`. -/
def Buffer.append (b : Buffer) (env : Surroundings) (data : Bytes) : Option Buffer :=
  if data.length > wordMax - b.bytes.length then none
  else if hroom : b.bytes.length + data.length > b.cap then
    match hgrow : growCap 64 (if b.cap = 0 then firstCap else b.cap) (b.bytes.length + data.length),
        env.realloc (b.bytes.length + data.length) with
    | some cap, some address =>
      some ⟨address, b.bytes ++ data, cap, by
        rw [List.length_append]
        exact growCap_enough hgrow⟩
    | _, _ => none
  else some ⟨b.address, b.bytes ++ data, b.cap, by
    rw [List.length_append]
    omega⟩

/-- The response with its header in it: the buffer, `header_end`, and the chunks that
were not read. -/
structure Response where
  buffer : Buffer
  headerEnd : UInt64
  left : List Chunk

/-- The loop of `dcc_ws_read_handshake`. -/
def readResponse (env : Surroundings) : List Chunk → Buffer → Except Status Response
  | [], _ => .error .network
  | chunk :: left, b =>
    if b.bytes.length ≥ maxHeaderBytes then .error .network
    else if chunk.val = [] then .error .network
    else
      match b.append env chunk.val with
      | none => .error .nomem
      | some b =>
        match findHeaderEnd b.bytes with
        | some i => .ok ⟨b, b.address + UInt64.ofNat i, left⟩
        | none => readResponse env left b

/-- The buffer after `*accept_end = '\0'`. -/
def cutAccept (buffer text accept : Bytes) : Bytes :=
  match (splitLine accept).2 with
  | none => buffer
  | some _ => buffer.set (text.length - accept.length + (splitLine accept).1.length) 0

/-- The part of `dcc_ws_read_handshake` after the loop, on the buffer with its
terminator: the checks, and the bytes that go to `rx_buf`. -/
def checkResponse (env : Surroundings) (r : Response) (terminated : Buffer) : Except Status Bytes :=
  let text := terminatedText terminated.bytes
  if scanStatusCode text ≠ some 101 then .error .network
  else
    match env.expected with
    | none => .error .tls
    | some expected =>
      match headerValue acceptName text with
      | none => .error .network
      | some accept =>
        if (splitLine accept).1 ≠ expected then .error .network
        else
          let data := cutAccept terminated.bytes text accept
          let wireLen := r.buffer.bytes.length
          let headerBytes := (r.headerEnd - terminated.address + 4).toNat
          if wireLen > headerBytes then
            if env.leftover then .ok ((data.drop headerBytes).take (wireLen - headerBytes))
            else .error .nomem
          else .ok []

/-- `dcc_ws_read_handshake`: where the frames are read from. -/
def readHandshake (env : Surroundings) (chunks : List Chunk) : Except Status Source :=
  match readResponse env chunks .empty with
  | .error status => .error status
  | .ok r =>
    match r.buffer.append env [0] with
    | none => .error .nomem
    | some terminated =>
      match checkResponse env r terminated with
      | .error status => .error status
      | .ok rx => .ok ⟨rx, r.left.map Subtype.val⟩

/-! ## The growing buffer -/

section Growing

variable {env : Surroundings} {b b' : Buffer} {data : Bytes}

/-- A capacity that the doubling can reach. -/
def Doubled (cap : Nat) : Prop := cap = 0 ∨ ∃ k, cap = firstCap * 2 ^ k

theorem growCap_doubled (h : growCap fuel nextCap needed = some cap) :
    ∃ k, cap = nextCap * 2 ^ k := by
  induction fuel generalizing nextCap with
  | zero => simp [growCap] at h
  | succ fuel ih =>
    rw [growCap] at h
    split at h
    · exact ⟨0, by rw [← Option.some.inj h, Nat.pow_zero, Nat.mul_one]⟩
    · split at h
      · simp at h
      · obtain ⟨k, rfl⟩ := ih h
        exact ⟨k + 1, by rw [Nat.pow_succ, Nat.mul_assoc, Nat.mul_comm 2]⟩

theorem Buffer.append_bytes (h : b.append env data = some b') :
    b'.bytes = b.bytes ++ data ∧ (Doubled b.cap → Doubled b'.cap) := by
  unfold append at h
  split at h
  · simp at h
  · split at h
    · split at h
      · rename_i cap address hgrow _
        obtain ⟨k, hcap⟩ := growCap_doubled hgrow
        rw [← Option.some.inj h]
        refine ⟨rfl, fun hdoubled => Or.inr ?_⟩
        rcases hdoubled with hzero | ⟨j, hj⟩
        · rw [if_pos hzero] at hcap
          exact ⟨k, hcap⟩
        · have hpos : b.cap ≠ 0 := by
            rw [hj]
            exact Nat.mul_ne_zero (by decide) (Nat.two_pow_pos j).ne'
          rw [if_neg hpos, hj, Nat.mul_assoc, ← Nat.pow_add] at hcap
          exact ⟨j + k, hcap⟩
      · simp at h
    · rw [← Option.some.inj h]
      exact ⟨rfl, fun hdoubled => hdoubled⟩

/-- What the loop has when it ends with the header. -/
structure Response.Found (r : Response) (i : Nat) (received : Bytes) : Prop where
  headerEnd : r.headerEnd = r.buffer.address + UInt64.ofNat i
  blank : findHeaderEnd r.buffer.bytes = some i
  received : r.buffer.bytes ++ chunkBytes r.left = received
  short : r.buffer.bytes.length < maxHeaderBytes + chunkSize
  doubled : Doubled r.buffer.cap

/-- **What was read**, up to the chunk with the first blank line. -/
theorem readResponse_spec {chunks : List Chunk} {r : Response} (hdoubled : Doubled b.cap)
    (h : readResponse env chunks b = .ok r) :
    ∃ i, r.Found i (b.bytes ++ chunkBytes chunks) := by
  induction chunks generalizing b with
  | nil => simp [readResponse] at h
  | cons chunk left ih =>
    have hchunks : chunkBytes (chunk :: left) = chunk.val ++ chunkBytes left := by
      simp [chunkBytes]
    rw [readResponse] at h
    split at h
    · simp at h
    · rename_i hroom
      split at h
      · simp at h
      · split at h
        · simp at h
        · rename_i b' happend
          obtain ⟨hbytes, hstill⟩ := Buffer.append_bytes happend
          rw [hchunks, ← List.append_assoc, ← hbytes]
          split at h
          · rename_i i hblank
            have hchunk := chunk.property
            have hlength := congrArg List.length hbytes
            rw [List.length_append] at hlength
            obtain rfl := Except.ok.inj h
            exact ⟨i, rfl, hblank, rfl, by simp only [hlength]; omega, hstill hdoubled⟩
          · exact ih (hstill hdoubled) h

end Growing

/-! ## The header and what is behind it -/

section Header

variable {header rest accept : Bytes}

theorem terminatedText_append_of_not_mem (h : 0 ∉ header) (rest : Bytes) :
    terminatedText (header ++ rest) = header ++ terminatedText rest := by
  unfold terminatedText
  rw [List.takeWhile_append_of_pos]
  intro b hb
  have : b ≠ 0 := fun hzero => h (hzero ▸ hb)
  simpa using this

theorem terminatedText_append_of_mem (h : 0 ∈ header) (rest : Bytes) :
    terminatedText (header ++ rest) = terminatedText header := by
  refine takeWhile_append_of_ne_nil ?_ rest
  intro hall
  have hzero := List.dropWhile_eq_nil_iff.mp hall 0 h
  simp at hzero

theorem terminatedText_of_not_mem (h : 0 ∉ header) : terminatedText header = header := by
  have hnil := terminatedText_append_of_not_mem h []
  rwa [List.append_nil, show terminatedText [] = [] from rfl, List.append_nil] at hnil

theorem terminatedText_terminator (wire : Bytes) :
    terminatedText (wire ++ [0]) = terminatedText wire := by
  by_cases h : 0 ∈ wire
  · exact terminatedText_append_of_mem h [0]
  · rw [terminatedText_append_of_not_mem h, terminatedText_of_not_mem h]
    exact List.append_nil wire

theorem scanStatusCode_header {code : Nat} (hends : ∃ front, header = front ++ blankLine)
    (h : scanStatusCode (terminatedText header) = some code) (rest : Bytes) :
    scanStatusCode (terminatedText (header ++ rest)) = some code := by
  by_cases hzero : 0 ∈ header
  · rwa [terminatedText_append_of_mem hzero]
  · rw [terminatedText_of_not_mem hzero] at h
    rw [terminatedText_append_of_not_mem hzero]
    obtain ⟨front, rfl⟩ := hends
    refine scanStatusCode_append ?_ h _
    simp [EndsLine, blankLine]

theorem cutAccept_drop {text : Bytes} (hsuffix : accept <:+ text) (htext : text.length ≤ header.length)
    (buffer : Bytes) :
    (cutAccept buffer text accept).drop header.length = buffer.drop header.length := by
  unfold cutAccept
  split
  · rfl
  · rename_i next hnext
    have hlength := congrArg List.length (splitLine_some hnext)
    simp only [List.length_append, crlf, List.length_cons, List.length_nil] at hlength
    have hle := hsuffix.length_le
    exact List.drop_set_of_lt (by omega)

theorem headerValue_header (hends : ∃ front, header = front ++ blankLine)
    (h : headerValue acceptName (terminatedText header) = some accept) (rest : Bytes) :
    ∃ accept', headerValue acceptName (terminatedText (header ++ rest)) = some accept' ∧
      (splitLine accept').1 = (splitLine accept).1 ∧
      ∀ buffer, (cutAccept buffer (terminatedText (header ++ rest)) accept').drop header.length =
        buffer.drop header.length := by
  have hsuffix : accept <:+ terminatedText header := headerValueLoop_suffix h
  by_cases hzero : 0 ∈ header
  · rw [terminatedText_append_of_mem hzero]
    exact ⟨accept, h, rfl, cutAccept_drop hsuffix (List.takeWhile_prefix _).length_le⟩
  · rw [terminatedText_of_not_mem hzero] at h hsuffix
    have hwhole : WholeLines header := by
      obtain ⟨front, rfl⟩ := hends
      exact Or.inr ⟨front ++ crlf, by simp [blankLine, crlf]⟩
    obtain ⟨⟨front, rfl⟩, hfound⟩ := headerValue_append hwhole h
    obtain ⟨line, next, hline, -, hlines⟩ := splitLine_whole front
    have hfirst := hlines []
    rw [List.append_nil, List.append_nil] at hfirst
    rw [terminatedText_append_of_not_mem hzero]
    refine ⟨front ++ crlf ++ terminatedText rest, hfound _, by rw [hlines, hfirst], ?_⟩
    intro buffer
    have hlength := congrArg List.length hline
    simp only [List.length_append, crlf, List.length_cons, List.length_nil] at hlength
    have hle := hsuffix.length_le
    simp only [List.length_append, crlf, List.length_cons, List.length_nil] at hle
    simp only [cutAccept, hlines]
    apply List.drop_set_of_lt
    simp only [List.length_append, crlf, List.length_cons, List.length_nil]
    omega

end Header

/-! ## What is kept -/

/-- The header with its blank line, of a response whose blank line is at `i`. -/
def Response.header (r : Response) (i : Nat) : Bytes := r.buffer.bytes.take (i + 4)

/-- The bytes that were read behind the header. -/
def Response.behind (r : Response) (i : Nat) : Bytes := r.buffer.bytes.drop (i + 4)

/-- What a handshake should have done: kept the bytes behind the header, and read the
status code and the accept line of the header. -/
structure Response.Kept (r : Response) (i : Nat) (rx : Bytes) : Prop where
  leftover : rx = r.behind i
  code : scanStatusCode (terminatedText r.buffer.bytes) =
    scanStatusCode (terminatedText (r.header i))
  accept : acceptValue (terminatedText r.buffer.bytes) = acceptValue (terminatedText (r.header i))

/-- When it does: the terminator left the buffer where it was, or there is nothing behind
the header and the stale pointer leads past the end; and the header has a status
code and an accept line of its own. -/
structure Response.Stands (r : Response) (i : Nat) (terminated : Buffer) : Prop where
  pointer : terminated.address = r.buffer.address ∨
    (r.behind i = [] ∧ r.buffer.bytes.length ≤ (r.headerEnd - terminated.address + 4).toNat)
  code : (scanStatusCode (terminatedText (r.header i))).isSome
  accept : (acceptValue (terminatedText (r.header i))).isSome

section Kept

variable {env : Surroundings} {r : Response} {terminated : Buffer} {rx : Bytes} {i : Nat}

theorem checkResponse_ok (h : checkResponse env r terminated = .ok rx) :
    scanStatusCode (terminatedText terminated.bytes) = some 101 ∧
      ∃ accept, headerValue acceptName (terminatedText terminated.bytes) = some accept ∧
        rx = ((cutAccept terminated.bytes (terminatedText terminated.bytes) accept).drop
          (r.headerEnd - terminated.address + 4).toNat).take
            (r.buffer.bytes.length - (r.headerEnd - terminated.address + 4).toNat) := by
  unfold checkResponse at h
  simp only at h
  split at h
  · simp at h
  · rename_i hcode
    split at h
    · simp at h
    · split at h
      · simp at h
      · rename_i accept haccept
        refine ⟨not_not.mp hcode, accept, haccept, ?_⟩
        split at h
        · simp at h
        · split at h
          · split at h
            · exact (Except.ok.inj h).symm
            · simp at h
          · rename_i hshort
            rw [Nat.sub_eq_zero_of_le (Nat.le_of_not_gt hshort), List.take_zero]
            exact (Except.ok.inj h).symm

variable {received : Bytes}

theorem headerBytes_eq_iff (terminated : Buffer) (hfound : r.Found i received) :
    (r.headerEnd - terminated.address + 4).toNat = i + 4 ↔
      terminated.address = r.buffer.address := by
  have hlength := (findHeaderEnd_split hfound.blank).1
  have hshort := hfound.short
  simp only [maxHeaderBytes, chunkSize] at hshort
  have hoffset : (UInt64.ofNat i + 4).toNat = i + 4 := by
    simp
    omega
  rw [hfound.headerEnd, ← hoffset, UInt64.toNat_inj]
  constructor
  · intro heq
    grind
  · intro heq
    grind

theorem Response.header_behind (hfound : r.Found i received) :
    r.header i ++ r.behind i = r.buffer.bytes ∧ (r.header i).length = i + 4 ∧
      ∃ front, r.header i = front ++ blankLine := by
  obtain ⟨hlength, hends⟩ := findHeaderEnd_split hfound.blank
  exact ⟨List.take_append_drop _ _, List.length_take_of_le hlength, hends⟩

theorem length_cutAccept (buffer text accept : Bytes) :
    (cutAccept buffer text accept).length = buffer.length := by
  unfold cutAccept
  split
  · rfl
  · exact List.length_set

/-- **What a finished handshake kept**, by what its checks found. -/
theorem kept_iff_stands (hfound : r.Found i received)
    (hterminated : terminated.bytes = r.buffer.bytes ++ [0])
    (h : checkResponse env r terminated = .ok rx) :
    r.Kept i rx ↔ r.Stands i terminated := by
  obtain ⟨hcode, accept, haccept, hrx⟩ := checkResponse_ok h
  obtain ⟨hwire, hheader, hends⟩ := Response.header_behind hfound
  have hpointer := headerBytes_eq_iff terminated hfound
  have hlength := (findHeaderEnd_split hfound.blank).1
  have hbehind : (r.behind i).length = r.buffer.bytes.length - (i + 4) := List.length_drop
  rw [hterminated, terminatedText_terminator] at hcode haccept hrx
  have hkept : rx.length =
      r.buffer.bytes.length - (r.headerEnd - terminated.address + 4).toNat := by
    rw [hrx, List.length_take, List.length_drop, length_cutAccept, List.length_append,
      List.length_singleton]
    omega
  constructor
  · intro hok
    refine ⟨?_, ?_, ?_⟩
    · by_cases hstays : terminated.address = r.buffer.address
      · exact Or.inl hstays
      · have hstale := mt hpointer.mp hstays
        rw [hok.leftover, hbehind] at hkept
        refine Or.inr ⟨List.eq_nil_of_length_eq_zero (by omega), by omega⟩
    · rw [← hok.code, hcode]
      rfl
    · rw [← hok.accept, acceptValue, haccept]
      rfl
  · intro hstands
    obtain ⟨code, hown⟩ := Option.isSome_iff_exists.mp hstands.code
    have hread := scanStatusCode_header hends hown (r.behind i)
    rw [hwire] at hread
    obtain ⟨value, hvalue⟩ := Option.isSome_iff_exists.mp hstands.accept
    obtain ⟨ownAccept, hownAccept, rfl⟩ := Option.map_eq_some_iff.mp hvalue
    obtain ⟨accept', haccept', hsame, huntouched⟩ :=
      headerValue_header hends hownAccept (r.behind i)
    rw [hwire] at haccept' huntouched
    obtain rfl : accept' = accept := Option.some.inj (haccept'.symm.trans haccept)
    refine ⟨?_, hread.trans hown.symm, ?_⟩
    · rcases hstands.pointer with hstays | ⟨hnothing, hpast⟩
      · rw [hrx, hpointer.mpr hstays, ← hheader, huntouched, hheader,
          List.drop_append_of_le_length hlength, ← hbehind]
        exact List.take_left
      · rw [hnothing]
        exact List.eq_nil_of_length_eq_zero (by omega)
    · rw [acceptValue, acceptValue, haccept, hownAccept, Option.map_some, Option.map_some, hsame]

end Kept

/-- **The bytes behind the header are kept exactly when the header stands.**  For every
response, every way to split it into reads and every address that `realloc` comes
back with, a finished handshake has read a part of the stream with its first blank
line in it, and keeps exactly what it had read behind that line, having looked at
nothing else, if and only if `Response.Stands`. -/
theorem handshake_leftover_iff {env : Surroundings} {chunks : List Chunk} {source : Source}
    (h : readHandshake env chunks = .ok source) :
    ∃ r i terminated, readResponse env chunks .empty = .ok r ∧
      r.buffer.append env [0] = some terminated ∧
      findHeaderEnd r.buffer.bytes = some i ∧
      r.buffer.bytes ++ source.segments.flatten = chunkBytes chunks ∧
      (r.Kept i source.leftover ↔ r.Stands i terminated) := by
  unfold readHandshake at h
  split at h
  · simp at h
  · rename_i r hresponse
    split at h
    · simp at h
    · rename_i terminated hterminated
      split at h
      · simp at h
      · rename_i rx hchecked
        obtain ⟨i, hfound⟩ := readResponse_spec (Or.inl rfl) hresponse
        obtain rfl := Except.ok.inj h
        exact ⟨r, i, terminated, hresponse, hterminated, hfound.blank, hfound.received,
          kept_iff_stands hfound (Buffer.append_bytes hterminated).1 hchecked⟩

/-- The accept line of the examples, with the value `k`, and its blank line. -/
def acceptLine : Bytes := acceptName ++ [58, 32, 107, 13, 10, 13, 10]

/-- A status line, a line of `padding` bytes, the accept line, and `more` bytes behind. -/
def paddedResponse (padding more : Nat) : Bytes :=
  asciiText "HTTP/1.1 101 x" ++ crlf ++ ([88, 58] ++ List.replicate padding 97) ++ crlf ++
    acceptLine ++ List.replicate more 0x81

/-- Surroundings in which a buffer moves whenever it grows. -/
def movingSurroundings : Surroundings where
  realloc needed := some (if needed ≤ 1024 then 4096 else 16384)
  expected := some [107]
  leftover := true

/-- A response with two bytes behind its header, in one read. -/
def shortChunks : List Chunk := [⟨paddedResponse 0 2, by decide +kernel⟩]

/-- A response that fills the first capacity, in two reads. -/
def fullChunks : List Chunk :=
  [⟨(paddedResponse 600 377).take 512, by decide +kernel⟩,
    ⟨(paddedResponse 600 377).drop 512, by decide +kernel⟩]

/-- The short response. -/
theorem handshake_leftover_short :
    ∃ r i terminated, readResponse movingSurroundings shortChunks .empty = .ok r ∧
      r.buffer.append movingSurroundings [0] = some terminated ∧
      findHeaderEnd r.buffer.bytes = some i ∧
      r.buffer.bytes ++ ([] : List Bytes).flatten = chunkBytes shortChunks ∧
      (r.Kept i [0x81, 0x81] ↔ r.Stands i terminated) :=
  handshake_leftover_iff (show readHandshake movingSurroundings shortChunks =
    .ok ⟨[0x81, 0x81], []⟩ by decide +kernel)

/-- The response of 1024 bytes: the bytes behind its header are read and lost. -/
theorem handshake_loses_leftover :
    readHandshake movingSurroundings fullChunks = .ok ⟨[], []⟩ ∧
      (chunkBytes fullChunks).length = 1024 ∧
      findHeaderEnd (chunkBytes fullChunks) = some 643 ∧
      (chunkBytes fullChunks).drop 647 = List.replicate 377 0x81 := by
  decide +kernel

end Dcc.WebSocket
