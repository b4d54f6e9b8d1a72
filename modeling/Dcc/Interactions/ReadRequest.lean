import Dcc.Interactions.HeaderBlock
import Dcc.Lib.Growing

/-!
# Reading a request

`dcc_interaction_read_request` reads into a growing buffer and looks at all of it again after
each read: for the end of the header, for the length of the body, and whether the body is there.

* `Framed` — what a stream should be read as;
* `ReadsAs.append` — what the buffer is accepted as, it is accepted as whatever follows;
* `request_framing` — every split of a stream that is accepted gives one request, and that is
  the one `Framed` asks for, exactly if no header is behind a NUL byte;
* `headers_lost` — a header line with a NUL byte ends the list.
-/

namespace Dcc.Interactions

open WebSocket (crlf blankLine terminatedText)

/-! ## The buffer -/

/-- `DCC_INTERACTION_READ_CHUNK`. -/
def readChunk : Nat := 4096

/-- `dcc_interaction_buffer_t`: the bytes, with room for a NUL behind them. -/
structure Buffer where
  bytes : Bytes
  cap : Nat
  room : bytes = [] ∨ bytes.length < cap
  small : cap ≤ wordMax

/-- The buffer at the start. -/
def Buffer.empty : Buffer := ⟨[], 0, .inl rfl, by decide⟩

/-- `dcc_interaction_buffer_reserve`: the capacity afterwards; `granted` is what `realloc`
grants. -/
def bufferReserve (granted : Nat → Bool) (cap need : Nat) : Option Nat :=
  if need ≤ cap then some cap
  else
    match Growing.grow wordMax 64 (if cap = 0 then readChunk else cap) need with
    | none => none
    | some next => if granted next then some next else none

theorem bufferReserve_spec {granted : Nat → Bool} {cap need next : Nat} (hcap : cap ≤ wordMax)
    (h : bufferReserve granted cap need = some next) : need ≤ next ∧ next ≤ wordMax := by
  unfold bufferReserve at h
  split at h
  · cases h
    exact ⟨by assumption, hcap⟩
  · split at h
    · cases h
    · next hgrow =>
      split at h
      · cases h
        have hstart : (if cap = 0 then readChunk else cap) ≤ wordMax := by
          split
          · decide
          · exact hcap
        obtain ⟨hneed, -, hmax⟩ := Growing.grow_spec hstart hgrow
        exact ⟨hneed, hmax⟩
      · cases h

theorem Buffer.length_lt (buffer : Buffer) : buffer.bytes.length < wordMax := by
  have hsmall := buffer.small
  rcases buffer.room with hnil | hlt
  · rw [hnil]
    decide
  · omega

variable {data : Bytes}

theorem Buffer.length_append_lt {granted : Nat → Bool} (buffer : Buffer) {cap : Nat}
    (hroom : ¬ data.length > wordMax - buffer.bytes.length)
    (hlast : ¬ wordAdd buffer.bytes.length data.length = wordMax)
    (hreserve : bufferReserve granted buffer.cap
      (wordAdd (wordAdd buffer.bytes.length data.length) 1) = some cap) :
    (buffer.bytes ++ data).length < cap := by
  have hlt := buffer.length_lt
  have hsum : wordAdd buffer.bytes.length data.length = buffer.bytes.length + data.length :=
    wordAdd_of_lt (by unfold wordMax at *; unfold wordSize at *; omega)
  have hnext : wordAdd (wordAdd buffer.bytes.length data.length) 1 =
      wordAdd buffer.bytes.length data.length + 1 :=
    wordAdd_of_lt (by unfold wordMax at *; unfold wordSize at *; omega)
  have hneed := (bufferReserve_spec buffer.small hreserve).1
  rw [List.length_append]
  omega

/-- `dcc_interaction_buffer_append`. -/
def Buffer.append (granted : Nat → Bool) (buffer : Buffer) (data : Bytes) : Except Status Buffer :=
  if hroom : data.length > wordMax - buffer.bytes.length then .error .nomem
  else
    let nextLen := wordAdd buffer.bytes.length data.length
    if hlast : nextLen = wordMax then .error .nomem
    else
      match hreserve : bufferReserve granted buffer.cap (wordAdd nextLen 1) with
      | none => .error .nomem
      | some cap =>
        .ok ⟨buffer.bytes ++ data, cap, .inr (buffer.length_append_lt hroom hlast hreserve),
          (bufferReserve_spec buffer.small hreserve).2⟩

theorem Buffer.append_bytes {granted : Nat → Bool} {buffer next : Buffer}
    (h : buffer.append granted data = .ok next) : next.bytes = buffer.bytes ++ data := by
  unfold Buffer.append at h
  split at h
  · cases h
  · simp only at h
    split at h
    · cases h
    · split at h
      · cases h
      · cases h
        rfl

/-! ## The loop -/

/-- The fields of `dcc_interaction_server_t` that limit a request. -/
structure Limits where
  maxHeaderSize : Nat
  maxBodySize : Nat

/-- What one call of `llam_read_when_ready` brings. -/
inductive Read
  /-- Bytes of the stream, and the sizes that `realloc` grants for them. -/
  | data (chunk : { chunk : Bytes // chunk ≠ [] ∧ chunk.length ≤ readChunk }) (granted : Nat → Bool)
  /-- A failure after which the loop goes on. -/
  | again
  /-- The end of the stream, or another failure. -/
  | failed

/-- What becomes of a request. -/
inductive ReadResult
  | waiting
  | rejected (status : Status)
  | accepted (request : Request)

/-- The end of `dcc_interaction_read_request`, with the whole request in the buffer. -/
def finish (limits : Limits) (granted : Nat → Bool) (buffer : Bytes) (headerLen contentLen : Nat) :
    ReadResult :=
  if headerLen > limits.maxHeaderSize then .rejected .invalidArg
  else
    match parseHeaders granted (buffer.take headerLen) with
    | .error status => .rejected status
    | .ok request =>
      if contentLen = wordMax then .rejected .nomem
      else if granted (wordAdd contentLen 1) then
        .accepted { request with body := (buffer.drop headerLen).take contentLen }
      else .rejected .nomem

/-- What the loop sees in the buffer: `none` where it has to read on. -/
def examine (limits : Limits) (granted : Nat → Bool) (buffer : Bytes) : Option ReadResult :=
  match findHeaderEnd buffer with
  | some headerLen =>
    match parseContentLength (buffer.take headerLen) with
    | .error status => some (.rejected status)
    | .ok contentLen =>
      if contentLen > limits.maxBodySize then some (.rejected .invalidArg)
      else if wordSub buffer.length headerLen ≥ contentLen then
        some (finish limits granted buffer headerLen contentLen)
      else none
  | none => if buffer.length > limits.maxHeaderSize then some (.rejected .invalidArg) else none

/-- The loop of `dcc_interaction_read_request`; `granted` is what `malloc` grants at its end. -/
def readLoop (limits : Limits) (granted : Nat → Bool) : List Read → Buffer → ReadResult
  | [], buffer => (examine limits granted buffer.bytes).getD .waiting
  | read :: reads, buffer =>
    match examine limits granted buffer.bytes with
    | some result => result
    | none =>
      match read with
      | .again => readLoop limits granted reads buffer
      | .failed => .rejected .network
      | .data chunk grants =>
        match buffer.append grants chunk.val with
        | .error status => .rejected status
        | .ok buffer => readLoop limits granted reads buffer

/-- `dcc_interaction_read_request`. -/
def readRequest (limits : Limits) (granted : Nat → Bool) (reads : List Read) : ReadResult :=
  readLoop limits granted reads .empty

/-- The bytes of a read. -/
def Read.bytes : Read → Bytes
  | .data chunk _ => chunk.val
  | _ => []

/-- The stream that is split into reads. -/
def streamOf (reads : List Read) : Bytes := (reads.map Read.bytes).flatten

/-! ## What should be read -/

/-- The length that the header lines give, 0 where they give none. -/
def ContentLength (lines : List Bytes) (n : Nat) : Prop :=
  match firstContentLength (lines.filterMap headerOf) with
  | some value => IsDecimal value n
  | none => n = 0

/-- A request is what a stream begins with: its first line gives the method and the path, the
other lines up to the blank line give the headers, as many as there is room for, and the body
is what follows. -/
structure Framed (limits : Limits) (stream : Bytes) (request : Request) (headerLen : Nat) : Prop where
  header : findHeaderEnd stream = some headerLen
  header_le : headerLen ≤ limits.maxHeaderSize
  requestLine : ∃ line, requestLine (stream.take headerLen) = some line ∧
    parseRequestLine line = .ok (request.method, request.path)
  contentLength : ContentLength (headerLines (stream.take headerLen)) request.body.length
  body : request.body = (stream.drop headerLen).take request.body.length
  body_le : request.body.length ≤ limits.maxBodySize
  /-- The request and its two NULs fit into a word. -/
  no_wrap : headerLen + request.body.length < wordMax

/-- The headers are the lines of the block in order, as many as the list takes. -/
def HeadersInOrder (stream : Bytes) (request : Request) (headerLen : Nat) : Prop :=
  request.headers = ((headerLines (stream.take headerLen)).filterMap headerOf).take headerCap

/-- No header stands in a line with a NUL byte or behind one, unless the list is full before. -/
def NothingBehindNul (stream : Bytes) (headerLen : Nat) : Prop :=
  let lines := headerLines (stream.take headerLen)
  headerCap ≤ ((linesRead lines).filterMap headerOf).length ∨
    (lines.dropWhile fun line => 0 ∉ line).filterMap headerOf = []

/-! ## A longer buffer -/

section Longer

variable {limits : Limits} {granted granted' : Nat → Bool} {buffer rest : Bytes} {n : Nat}
variable {request request' : Request}

theorem findHeaderEnd_append (h : findHeaderEnd buffer = some n) (rest : Bytes) :
    findHeaderEnd (buffer ++ rest) = some n := by
  obtain ⟨i, hi, rfl⟩ := Option.map_eq_some_iff.mp h
  refine Option.map_eq_some_iff.mpr ⟨i, ?_, rfl⟩
  clear h
  induction buffer generalizing i with
  | nil => cases hi
  | cons b buffer ih =>
    rw [List.cons_append, WebSocket.findHeaderEnd]
    rw [WebSocket.findHeaderEnd] at hi
    split at hi
    · next hprefix =>
      cases hi
      rw [if_pos]
      rw [List.isPrefixOf_iff_prefix] at hprefix ⊢
      exact hprefix.trans (List.prefix_append (b :: buffer) rest)
    · next hprefix =>
      obtain ⟨k, hk, rfl⟩ := Option.map_eq_some_iff.mp hi
      have hlength := (WebSocket.findHeaderEnd_split hk).1
      rw [if_neg, ih k hk]
      · rfl
      · intro hlonger
        apply hprefix
        rw [List.isPrefixOf_iff_prefix] at hlonger ⊢
        refine List.prefix_of_prefix_length_le hlonger (List.prefix_append _ rest) ?_
        simp only [blankLine, List.length_cons, List.length_nil]
        omega

theorem findHeaderEnd_of_append (h : findHeaderEnd (buffer ++ rest) = some n)
    (hn : n ≤ buffer.length) : findHeaderEnd buffer = some n := by
  obtain ⟨i, hi, rfl⟩ := Option.map_eq_some_iff.mp h
  refine Option.map_eq_some_iff.mpr ⟨i, ?_, rfl⟩
  clear h
  induction buffer generalizing i with
  | nil => simp at hn
  | cons b buffer ih =>
    rw [List.cons_append, WebSocket.findHeaderEnd] at hi
    rw [WebSocket.findHeaderEnd]
    rw [List.length_cons] at hn
    split at hi
    · next hprefix =>
      cases hi
      rw [if_pos]
      rw [List.isPrefixOf_iff_prefix] at hprefix ⊢
      refine List.prefix_of_prefix_length_le hprefix (List.prefix_append (b :: buffer) rest) ?_
      simp only [blankLine, List.length_cons, List.length_nil]
      omega
    · next hprefix =>
      obtain ⟨k, hk, rfl⟩ := Option.map_eq_some_iff.mp hi
      rw [if_neg, ih k hk (by omega)]
      · rfl
      · intro hshorter
        apply hprefix
        rw [List.isPrefixOf_iff_prefix] at hshorter ⊢
        exact hshorter.trans (List.prefix_append _ rest)

/-- What a buffer is read as, with exact arithmetic. -/
structure ReadsAs (limits : Limits) (granted : Nat → Bool) (buffer : Bytes) (request : Request)
    (headerLen contentLen : Nat) : Prop where
  header : findHeaderEnd buffer = some headerLen
  length : parseContentLength (buffer.take headerLen) = .ok contentLen
  length_le : contentLen ≤ limits.maxBodySize
  body_le : headerLen + contentLen ≤ buffer.length
  finish : finish limits granted buffer headerLen contentLen = .accepted request

theorem headerEnd_le (h : findHeaderEnd buffer = some n) : n ≤ buffer.length :=
  (block_of_headerEnd h).1

theorem wordSub_header (h : findHeaderEnd buffer = some n) (hlength : buffer.length < wordSize) :
    wordSub buffer.length n = buffer.length - n :=
  wordSub_of_le (headerEnd_le h) hlength

theorem examine_accepted (hlength : buffer.length < wordSize) :
    examine limits granted buffer = some (.accepted request) ↔
      ∃ headerLen contentLen, ReadsAs limits granted buffer request headerLen contentLen := by
  constructor
  · intro h
    unfold examine at h
    split at h
    · next headerLen hheader =>
      split at h
      · cases h
      · next contentLen hcontent =>
        split at h
        · cases h
        · split at h
          · next hle hthere =>
            rw [wordSub_header hheader hlength] at hthere
            have hheaderLe := headerEnd_le hheader
            exact ⟨headerLen, contentLen, hheader, hcontent, by omega, by omega, Option.some.inj h⟩
          · cases h
    · split at h <;> cases h
  · intro h
    obtain ⟨headerLen, contentLen, hread⟩ := h
    have hheaderLe := headerEnd_le hread.header
    have hbody := hread.body_le
    have hle : ¬ contentLen > limits.maxBodySize := by
      have := hread.length_le
      omega
    unfold examine
    simp only [hread.header, hread.length, if_neg hle, wordSub_header hread.header hlength]
    rw [if_pos (by omega), hread.finish]

theorem finish_append {headerLen contentLen : Nat} (h : headerLen + contentLen ≤ buffer.length)
    (rest : Bytes) : finish limits granted (buffer ++ rest) headerLen contentLen =
      finish limits granted buffer headerLen contentLen := by
  have hheader : (buffer ++ rest).take headerLen = buffer.take headerLen :=
    List.take_append_of_le_length (by omega)
  have hbody : ((buffer ++ rest).drop headerLen).take contentLen =
      (buffer.drop headerLen).take contentLen := by
    rw [List.drop_append_of_le_length (by omega),
      List.take_append_of_le_length (by rw [List.length_drop]; omega)]
  rw [finish, finish, hheader, hbody]

/-- **What the buffer is read as, it is read as whatever follows.** -/
theorem ReadsAs.append {headerLen contentLen : Nat}
    (h : ReadsAs limits granted buffer request headerLen contentLen) (rest : Bytes) :
    ReadsAs limits granted (buffer ++ rest) request headerLen contentLen := by
  have hle := h.body_le
  refine ⟨findHeaderEnd_append h.header rest, ?_, h.length_le, ?_, ?_⟩
  · rw [List.take_append_of_le_length (by omega)]
    exact h.length
  · rw [List.length_append]
    omega
  · rw [finish_append hle]
    exact h.finish

theorem parseHeaders_unique {block : Bytes} (h : parseHeaders granted block = .ok request)
    (h' : parseHeaders granted' block = .ok request') : request = request' := by
  unfold parseHeaders at h h'
  split at h
  · cases h
  split at h
  · cases h
  split at h'
  · cases h'
  split at h'
  · cases h'
  rw [h] at h'
  exact Except.ok.inj h'

theorem finish_eq {headerLen contentLen : Nat}
    (h : finish limits granted buffer headerLen contentLen = .accepted request) :
    headerLen ≤ limits.maxHeaderSize ∧
      ∃ parsed, parseHeaders granted (buffer.take headerLen) = .ok parsed ∧
        request = { parsed with body := (buffer.drop headerLen).take contentLen } := by
  unfold finish at h
  split at h
  · cases h
  split at h
  · cases h
  · next hle parsed hparsed =>
    split at h
    · cases h
    · split at h
      · cases h
        exact ⟨by omega, parsed, hparsed, rfl⟩
      · cases h

theorem ReadsAs.unique {headerLen headerLen' contentLen contentLen' : Nat}
    (h : ReadsAs limits granted buffer request headerLen contentLen)
    (h' : ReadsAs limits granted' buffer request' headerLen' contentLen') :
    request = request' := by
  obtain rfl : headerLen = headerLen' := Option.some.inj (h.header.symm.trans h'.header)
  obtain rfl : contentLen = contentLen' := Except.ok.inj (h.length.symm.trans h'.length)
  obtain ⟨-, parsed, hparsed, rfl⟩ := finish_eq h.finish
  obtain ⟨-, parsed', hparsed', rfl⟩ := finish_eq h'.finish
  rw [parseHeaders_unique hparsed hparsed']

/-- **No part of a stream is rejected** when the whole of it is accepted. -/
theorem ReadsAs.of_append {headerLen contentLen : Nat}
    (h : ReadsAs limits granted (buffer ++ rest) request headerLen contentLen)
    (hlength : buffer.length < wordSize) :
    examine limits granted buffer = none ∨ examine limits granted buffer = some (.accepted request) := by
  obtain ⟨hheaderLe, -⟩ := finish_eq h.finish
  have hcontentLe := h.length_le
  by_cases hthere : headerLen ≤ buffer.length
  · have hheader := findHeaderEnd_of_append h.header hthere
    have hcontent := h.length
    rw [List.take_append_of_le_length hthere] at hcontent
    unfold examine
    simp only [hheader, hcontent, if_neg (show ¬ contentLen > limits.maxBodySize by omega),
      wordSub_header hheader hlength]
    by_cases hbody : buffer.length - headerLen ≥ contentLen
    · right
      rw [if_pos hbody, ← finish_append (by omega) rest, h.finish]
    · left
      rw [if_neg hbody]
  · left
    have hnone : findHeaderEnd buffer = none := by
      cases hbuffer : findHeaderEnd buffer with
      | none => rfl
      | some m =>
        have hm := findHeaderEnd_append hbuffer rest
        rw [h.header] at hm
        cases hm
        exact absurd (headerEnd_le hbuffer) hthere
    unfold examine
    rw [hnone]
    simp only
    rw [if_neg (by omega)]

end Longer

/-! ## The whole loop -/

section Loop

variable {limits : Limits} {granted : Nat → Bool} {reads : List Read} {buffer : Buffer}
variable {request : Request}

theorem readLoop_accepted (h : readLoop limits granted reads buffer = .accepted request) :
    ∃ front headerLen contentLen, front <+: buffer.bytes ++ streamOf reads ∧
      front.length < wordMax ∧ ReadsAs limits granted front request headerLen contentLen := by
  have hword : buffer.bytes.length < wordSize := buffer.length_lt.trans (by decide)
  induction reads generalizing buffer with
  | nil =>
    rw [readLoop] at h
    cases hexamine : examine limits granted buffer.bytes with
    | none =>
      rw [hexamine] at h
      cases h
    | some result =>
      rw [hexamine] at h
      obtain rfl : result = .accepted request := h
      obtain ⟨headerLen, contentLen, hread⟩ := (examine_accepted hword).mp hexamine
      exact ⟨_, _, _, List.prefix_append _ _, buffer.length_lt, hread⟩
  | cons read reads ih =>
    unfold readLoop at h
    cases hexamine : examine limits granted buffer.bytes with
    | some result =>
      rw [hexamine] at h
      obtain rfl : result = .accepted request := h
      obtain ⟨headerLen, contentLen, hread⟩ := (examine_accepted hword).mp hexamine
      exact ⟨_, _, _, List.prefix_append _ _, buffer.length_lt, hread⟩
    | none =>
      rw [hexamine] at h
      cases read with
      | again => exact ih h hword
      | failed => cases h
      | data chunk grants =>
        simp only at h
        split at h
        · cases h
        · next next happend =>
          have hnext := ih h (next.length_lt.trans (by decide))
          rw [Buffer.append_bytes happend, List.append_assoc] at hnext
          exact hnext

/-- Reads that do not fail, with memory for what they bring. -/
def Served (reads : List Read) : Prop :=
  ∀ read ∈ reads, match read with
    | .data _ grants => ∀ size, grants size = true
    | .again => True
    | .failed => False

theorem Buffer.append_total {grants : Nat → Bool} (hgrants : ∀ size, grants size = true)
    (hshort : buffer.bytes.length + data.length < 2 ^ 62) :
    ∃ next, buffer.append grants data = .ok next := by
  have hsum : wordAdd buffer.bytes.length data.length = buffer.bytes.length + data.length :=
    wordAdd_of_lt (by unfold wordSize; omega)
  have hnext : wordAdd (buffer.bytes.length + data.length) 1 =
      buffer.bytes.length + data.length + 1 := wordAdd_of_lt (by unfold wordSize; omega)
  have hreserve : ∃ cap, bufferReserve grants buffer.cap
      (buffer.bytes.length + data.length + 1) = some cap := by
    unfold bufferReserve
    split
    · exact ⟨_, rfl⟩
    · have hstart : (if buffer.cap = 0 then readChunk else buffer.cap) ≠ 0 := by
        split
        · decide
        · assumption
      generalize (if buffer.cap = 0 then readChunk else buffer.cap) = start at hstart ⊢
      obtain ⟨cap, hcap⟩ := @Growing.grow_isSome wordMax 63 start
        (buffer.bytes.length + data.length + 1) (by unfold wordMax wordSize; omega) (by omega)
      rw [hcap]
      simp only [hgrants, if_true]
      exact ⟨cap, rfl⟩
  rw [← hnext, ← hsum] at hreserve
  obtain ⟨cap, hcap⟩ := hreserve
  unfold Buffer.append
  simp only []
  rw [dif_neg (by unfold wordMax wordSize; omega),
    dif_neg (by rw [hsum]; unfold wordMax wordSize; omega)]
  split
  · next hnone =>
    rw [hcap] at hnone
    cases hnone
  · exact ⟨_, rfl⟩

/-- **What a stream is read as, it is accepted as, however it is split.** -/
theorem readLoop_total {headerLen contentLen : Nat}
    (h : ReadsAs limits granted (buffer.bytes ++ streamOf reads) request headerLen contentLen)
    (hserved : Served reads) (hshort : (buffer.bytes ++ streamOf reads).length < 2 ^ 62) :
    readLoop limits granted reads buffer = .accepted request := by
  have hword : buffer.bytes.length < wordSize := buffer.length_lt.trans (by decide)
  induction reads generalizing buffer with
  | nil =>
    rw [streamOf, List.map_nil, List.flatten_nil, List.append_nil] at h
    rw [readLoop, (examine_accepted hword).mpr ⟨_, _, h⟩]
    rfl
  | cons read reads ih =>
    obtain ⟨hread, hrest⟩ := List.forall_mem_cons.mp hserved
    have hcases := h.of_append hword
    unfold readLoop
    rcases hcases with hexamine | hexamine
    · rw [hexamine]
      simp only
      cases read with
      | again => exact ih h hrest hshort hword
      | failed => exact absurd hread id
      | data chunk grants =>
        have hstream : streamOf (.data chunk grants :: reads) = chunk.val ++ streamOf reads := rfl
        rw [hstream] at h hshort
        have hlength : buffer.bytes.length + chunk.val.length < 2 ^ 62 := by
          rw [List.length_append, List.length_append] at hshort
          omega
        obtain ⟨next, happend⟩ := Buffer.append_total hread hlength
        have hbytes := Buffer.append_bytes happend
        rw [← List.append_assoc, ← hbytes] at h hshort
        simp only [happend]
        exact ih h hrest hshort (next.length_lt.trans (by decide))
    · rw [hexamine]

end Loop

/-! ## The request -/

section Framing

variable {limits : Limits} {granted : Nat → Bool} {stream : Bytes} {request : Request}
variable {headerLen contentLen : Nat}

theorem ReadsAs.framed (h : ReadsAs limits granted stream request headerLen contentLen)
    (hword : headerLen + contentLen < wordMax) : Framed limits stream request headerLen := by
  obtain ⟨hle, line, lines, hblock⟩ := block_of_headerEnd h.header
  obtain ⟨hmax, parsed, hparsed, rfl⟩ := finish_eq h.finish
  obtain ⟨hrequest, -, -, -⟩ := parseHeaders_lines hblock hparsed
  have hbody := h.body_le
  have hlength : ((stream.drop headerLen).take contentLen).length = contentLen := by
    rw [List.length_take, List.length_drop]
    omega
  refine ⟨h.header, hmax, ⟨line, hblock.requestLine_eq, hrequest⟩, ?_, ?_, ?_, ?_⟩
  · have hcontent := h.length
    rw [parseContentLength_lines hblock] at hcontent
    obtain ⟨hvalue, hnone⟩ := lengthOver_ok hcontent
    simp only [hlength, hblock.headerLines_eq, ContentLength]
    split
    · next value hfirst => exact hvalue value hfirst
    · next hfirst => exact hnone hfirst
  · simp only [hlength]
  · simp only [hlength]
    exact h.length_le
  · simp only [hlength]
    exact hword

/-- **The list has the header lines in order exactly when there is none behind a NUL.** -/
theorem ReadsAs.headers_iff (h : ReadsAs limits granted stream request headerLen contentLen) :
    HeadersInOrder stream request headerLen ↔ NothingBehindNul stream headerLen := by
  obtain ⟨hle, line, lines, hblock⟩ := block_of_headerEnd h.header
  obtain ⟨hmax, parsed, hparsed, rfl⟩ := finish_eq h.finish
  obtain ⟨-, -, hlist, -⟩ := parseHeaders_lines hblock hparsed
  simp only [HeadersInOrder, NothingBehindNul, hblock.headerLines_eq, hlist]
  have hsplit : lines.filterMap headerOf = (linesRead lines).filterMap headerOf ++
      (lines.dropWhile fun line => 0 ∉ line).filterMap headerOf := by
    rw [← List.filterMap_append, linesRead, List.takeWhile_append_dropWhile]
  rw [hsplit]
  generalize (linesRead lines).filterMap headerOf = front
  generalize (lines.dropWhile fun line => 0 ∉ line).filterMap headerOf = lost
  constructor
  · intro heq
    by_cases hfull : headerCap ≤ front.length
    · exact .inl hfull
    · right
      have hlengths := congrArg List.length heq
      rw [List.length_take, List.length_take, List.length_append] at hlengths
      exact List.length_eq_zero_iff.mp (by omega)
  · intro hor
    rcases hor with hfull | hnil
    · rw [List.take_append_of_le_length hfull]
    · rw [hnil, List.append_nil]

end Framing

/-- **One request for every split of a stream.**  A request that is accepted is framed as its
stream says, every other split of the stream that is accepted gives the same request, and every
other split is accepted that meets no failure; the headers are those of the stream, in order
and up to the capacity of the list, if and only if no header is lost behind a NUL byte. -/
theorem request_framing {limits : Limits} {granted : Nat → Bool} {reads : List Read}
    {request : Request} (h : readRequest limits granted reads = .accepted request) :
    ∃ headerLen, Framed limits (streamOf reads) request headerLen ∧
      (HeadersInOrder (streamOf reads) request headerLen ↔
        NothingBehindNul (streamOf reads) headerLen) ∧
      (∀ granted' reads' request', streamOf reads' = streamOf reads →
        readRequest limits granted' reads' = .accepted request' → request' = request) ∧
      ∀ reads', streamOf reads' = streamOf reads → Served reads' → (streamOf reads).length < 2 ^ 62 →
        readRequest limits granted reads' = .accepted request := by
  obtain ⟨front, headerLen, contentLen, hprefix, hshort, hread⟩ := readLoop_accepted h
  rw [Buffer.empty, List.nil_append] at hprefix
  obtain ⟨rest, hrest⟩ := hprefix
  have hword : headerLen + contentLen < wordMax := by
    have hle := hread.body_le
    omega
  have hstream := hread.append rest
  rw [hrest] at hstream
  refine ⟨headerLen, hstream.framed hword, hstream.headers_iff, ?_, ?_⟩
  · intro granted' reads' request' hsame haccepted
    obtain ⟨front', headerLen', contentLen', ⟨rest', hrest'⟩, -, hread'⟩ :=
      readLoop_accepted haccepted
    rw [Buffer.empty, List.nil_append, hsame] at hrest'
    have hstream' := hread'.append rest'
    rw [hrest'] at hstream'
    exact hstream'.unique hstream
  · intro reads' hsame hserved hlength
    rw [← hsame] at hstream hlength
    exact readLoop_total hstream hserved hlength

/-- The limits of a server with the default options. -/
def defaultLimits : Limits := ⟨8192, 16384⟩

/-- A read of up to 4096 bytes with memory for it. -/
def readOf (chunk : Bytes) (h : chunk ≠ [] ∧ chunk.length ≤ readChunk) : Read :=
  .data ⟨chunk, h⟩ fun _ => true

/-- `"GET / \r\ncontent-length:2\r\n\r\nhi"`, split inside the blank line. -/
def splitRequest : List Read :=
  [readOf (plainRequest ++ contentLengthName ++ [58, 50, 13, 10, 13]) (by decide), .again,
    readOf [10, 104, 105] (by decide)]

/-- The request in it. -/
def greeting : Request := ⟨[71, 69, 84], [47], [(contentLengthName, [50])], [104, 105]⟩

theorem request_framing_split :
    ∃ headerLen, Framed defaultLimits (streamOf splitRequest) greeting headerLen := by
  obtain ⟨headerLen, hframed, -⟩ :=
    @request_framing defaultLimits (fun _ => true) splitRequest greeting (by rfl)
  exact ⟨headerLen, hframed⟩

/-- `"GET / \r\na:\0\r\nb:\r\n\r\n"`. -/
def nulRequest : List Read :=
  [readOf (plainRequest ++ [97, 58, 0, 13, 10, 98, 58, 13, 10, 13, 10]) (by decide)]

/-- A line with a NUL byte and those behind it are lost, and the request is accepted. -/
theorem headers_lost :
    ¬ ∀ limits granted reads request, readRequest limits granted reads = .accepted request →
      ∃ headerLen, Framed limits (streamOf reads) request headerLen ∧
        HeadersInOrder (streamOf reads) request headerLen := by
  intro h
  obtain ⟨headerLen, hframed, horder⟩ :=
    h defaultLimits (fun _ => true) nulRequest ⟨[71, 69, 84], [47], [], []⟩ (by rfl)
  obtain rfl : 19 = headerLen := Option.some.inj ((show some 19 = _ by decide).trans hframed.header)
  unfold HeadersInOrder at horder
  exact absurd horder (by decide)

end Dcc.Interactions
