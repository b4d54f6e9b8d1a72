import Mathlib.Data.List.DropRight
import Dcc.Http.Chunked
import Dcc.Lib.Split
import Dcc.Ws.HeaderText

/-!
# Responses and their header lines

`dcc_http_parse_response` cuts a response at its first blank line and decodes the
body where `dcc_http_headers_token_contains` finds `chunked` in a
`Transfer-Encoding` line.  The search looks for the token anywhere in the value
of a line.

* `HasElement`: the token is an element of the list that a line of the name gives;
* `StandsInside`: the text of the token stands in such a value, but not as an
  element;
* `tokenContains_iff`: the search says yes where either holds;
* `headers_token_exact`: so it is right, and a body is decoded only where it is
  chunked, exactly where a token that stands inside is an element as well.
-/

namespace Dcc.Http

/-! ## Header lines -/

/-- `':'`. -/
def chColon : UInt8 := 0x3a

/-- `','`. -/
def chComma : UInt8 := 0x2c

/-- What `tolower` makes of a text. -/
def lowerText (text : Bytes) : Bytes := text.map WebSocket.lowered

/-- The text behind the next line feed, without a carriage return in front. -/
def nextLine (text : Bytes) : Bytes :=
  let rest := (text.dropWhile (· != chLF)).drop 1
  if rest.head? = some chCR then rest.drop 1 else rest

/-- The lines that the search goes through. -/
def headerLinesLoop : Nat → Bytes → List Bytes
  | 0, _ => []
  | fuel + 1, text =>
    if text = [] then []
    else text.takeWhile (· != chLF) :: headerLinesLoop fuel (nextLine text)

/-- The lines of a header; every round leaves a shorter text. -/
def headerLines (headers : Bytes) : List Bytes := headerLinesLoop headers.length headers

/-- The value of a line with the name in front of its first colon. -/
def fieldValue (name line : Bytes) : Option Bytes :=
  let field := line.takeWhile (· != chColon)
  if field.length < line.length ∧ field.length = name.length ∧ lowerText field = lowerText name then
    some ((line.drop (name.length + 1)).dropWhile fun c => c == 0x20 || c == 0x09)
  else none

/-- `dcc_http_ascii_ieq_n` at the front of a text that is long enough. -/
def startsWithToken (token text : Bytes) : Bool :=
  token.length ≤ text.length && lowerText (text.take token.length) == lowerText token

/-- The loop over the places of a value where the token may start. -/
def holdsToken (token : Bytes) : Bytes → Bool
  | [] => startsWithToken token []
  | c :: p => startsWithToken token (c :: p) || holdsToken token p

/-- The loop of `dcc_http_headers_token_contains` over the lines. -/
def tokenLoop (name token : Bytes) : Nat → Bytes → Bool
  | 0, _ => false
  | fuel + 1, text =>
    if text = [] then false
    else
      match fieldValue name (text.takeWhile (· != chLF)) with
      | some value => if holdsToken token value then true else tokenLoop name token fuel (nextLine text)
      | none => tokenLoop name token fuel (nextLine text)

/-- `dcc_http_headers_token_contains`. -/
def headersTokenContains (headers name token : Bytes) : Bool :=
  tokenLoop name token headers.length headers

/-! ## Responses -/

/-- `dcc_http_response_t`. -/
structure HttpResponse where
  status : Nat
  headers : Bytes
  body : Bytes
  deriving DecidableEq, Repr

/-- `dcc_http_find_header_end`: the same search as that of the handshake. -/
def findHeaderEnd (data : Bytes) : Option Nat := WebSocket.findHeaderEnd data

/-- `dcc_http_strndup`; `granted` is what `malloc` grants. -/
def strndup (granted : Nat → Bool) (data : Bytes) : Except Status Bytes :=
  if granted (data.length + 1) then .ok data else .error .nomem

/-- `"Transfer-Encoding"`. -/
def transferEncoding : Bytes := asciiText "Transfer-Encoding"

/-- `"chunked"`. -/
def chunkedToken : Bytes := asciiText "chunked"

/-- The body of a response as it is handed on, decoded where the header says so. -/
def responseBody (granted : Nat → Bool) (headers body : Bytes) : Option (Except Status Bytes) :=
  if headersTokenContains headers transferEncoding chunkedToken then
    (decodeChunkedBody body granted .empty).map fun r =>
      if r.1 ≠ .ok then .error r.1 else strndup granted r.2.data
  else some (strndup granted body)

/-- `dcc_http_parse_response`. -/
def parseResponse (granted : Nat → Bool) (raw : Bytes) : Option (Except Status HttpResponse) :=
  match findHeaderEnd raw with
  | none => some (.error .network)
  | some headersLen =>
    if chLF ∉ raw.take headersLen then some (.error .network)
    else
      match WebSocket.scanStatusCode (WebSocket.terminatedText raw) with
      | none => some (.error .network)
      | some status =>
        if 2 ^ 16 ≤ status then some (.error .network)
        else
          match strndup granted (raw.take headersLen) with
          | .error e => some (.error e)
          | .ok headers =>
            (responseBody granted headers (raw.drop (headersLen + 4))).map fun body =>
              body.map fun body => ⟨status, headers, body⟩

/-! ## Lists in values -/

/-- White space around an element: blanks, tabs and the carriage return of the line. -/
def isBlank (c : UInt8) : Bool := c == 0x20 || c == 0x09 || c == chCR

/-- A text without the white space around it. -/
def trim (text : Bytes) : Bytes := (text.dropWhile isBlank).rdropWhile isBlank

/-- The values that the lines of a name give. -/
def valuesOf (headers name : Bytes) : List Bytes := (headerLines headers).filterMap (fieldValue name)

/-- The token is an element of the list of a line with the name. -/
def HasElement (headers name token : Bytes) : Prop :=
  ∃ value ∈ valuesOf headers name,
    ∃ element ∈ value.splitOn chComma, lowerText (trim element) = lowerText token

instance (headers name token : Bytes) : Decidable (HasElement headers name token) :=
  inferInstanceAs (Decidable (∃ value ∈ _, ∃ element ∈ _, _ = _))

/-- A part `t` of a value is an element: between it and the next commas, or the ends of
the value, is white space only. -/
structure Whole (pre t post : Bytes) : Prop where
  left : ∀ c ∈ (pre.rdropWhile isBlank).getLast?, c = chComma
  right : ∀ c ∈ (post.dropWhile isBlank).head?, c = chComma
  comma : chComma ∉ t
  trimmed : trim t = t

/-- The token stands in the value of a line with the name, but not as an element. -/
def StandsInside (headers name token : Bytes) : Prop :=
  ∃ value ∈ valuesOf headers name, ∃ pre t post, value = pre ++ (t ++ post) ∧
    lowerText t = lowerText token ∧ ¬ Whole pre t post

section Elements

variable {value element t lead trail pre post : Bytes}

theorem trim_split (text : Bytes) : ∃ lead trail, (∀ c ∈ lead, isBlank c = true) ∧
    (∀ c ∈ trail, isBlank c = true) ∧ text = lead ++ (trim text ++ trail) := by
  refine ⟨text.takeWhile isBlank, (text.dropWhile isBlank).rtakeWhile isBlank,
    fun c hc => List.mem_takeWhile_imp hc, fun c hc => List.mem_rtakeWhile_imp hc, ?_⟩
  rw [trim, List.rdropWhile_append_rtakeWhile, List.takeWhile_append_dropWhile]

theorem rdropWhile_append_of_pos (htrail : ∀ c ∈ trail, isBlank c = true) :
    (t ++ trail).rdropWhile isBlank = t.rdropWhile isBlank := by
  rw [List.rdropWhile, List.rdropWhile, List.reverse_append, List.dropWhile_append_of_pos]
  intro c hc
  exact htrail c (List.mem_reverse.mp hc)

theorem trim_of_blanks (hlead : ∀ c ∈ lead, isBlank c = true)
    (htrail : ∀ c ∈ trail, isBlank c = true) (ht : trim t = t) :
    trim (lead ++ (t ++ trail)) = t := by
  rw [trim, List.dropWhile_append_of_pos hlead, List.dropWhile_append]
  split
  · next hempty =>
    have hdrop : t.dropWhile isBlank = [] := List.isEmpty_iff.mp hempty
    rw [List.dropWhile_eq_nil_iff.mpr htrail, ← ht, trim, hdrop]
  · rw [rdropWhile_append_of_pos htrail]
    exact ht

theorem trim_trim (text : Bytes) : trim (trim text) = trim text := by
  have hdrop : (trim text).dropWhile isBlank = trim text := by
    obtain ⟨rest, hrest⟩ := List.rdropWhile_prefix isBlank (l := text.dropWhile isBlank)
    cases hhead : trim text with
    | nil => rfl
    | cons c p =>
      apply List.dropWhile_cons_of_neg
      have hfirst : (text.dropWhile isBlank).head? = some c := by
        rw [← hrest, ← trim, hhead]
        rfl
      have hnot := List.head?_dropWhile_not isBlank text
      rw [hfirst] at hnot
      simpa using hnot
  rw [trim, hdrop]
  exact List.rdropWhile_idempotent isBlank _

theorem rdropWhile_of_between (h : Split.Between chComma pre post) : pre.rdropWhile isBlank = pre := by
  rw [List.rdropWhile_eq_self_iff]
  intro hne hblank
  rw [h.1 _ (List.getLast?_eq_getLast_of_ne_nil hne)] at hblank
  exact absurd hblank (by decide)

theorem dropWhile_of_between (h : Split.Between chComma pre post) : post.dropWhile isBlank = post := by
  cases post with
  | nil => rfl
  | cons c post =>
    obtain rfl : c = chComma := h.2 c rfl
    rfl

/-- **Elements are the whole parts.**  A trimmed element of a value is a part with white
space only between it and the next commas, and the other way round. -/
theorem element_iff_whole :
    (∃ element ∈ value.splitOn chComma, trim element = t) ↔
      ∃ pre post, value = pre ++ (t ++ post) ∧ Whole pre t post := by
  constructor
  · intro h
    obtain ⟨element, hmem, rfl⟩ := h
    obtain ⟨helement, pre, post, hvalue, hbetween⟩ := Split.between_of_mem hmem
    obtain ⟨lead, trail, hlead, htrail, hsplit⟩ := trim_split element
    have hcomma : chComma ∉ trim element := by
      intro hinside
      apply helement
      rw [hsplit]
      exact List.mem_append_right _ (List.mem_append_left _ hinside)
    refine ⟨pre ++ lead, trail ++ post, ?_, ?_, ?_, hcomma, trim_trim element⟩
    · calc value = pre ++ (element ++ post) := hvalue
        _ = pre ++ (lead ++ (trim element ++ trail) ++ post) := by rw [← hsplit]
        _ = pre ++ lead ++ (trim element ++ (trail ++ post)) := by simp only [List.append_assoc]
    · rw [rdropWhile_append_of_pos hlead, rdropWhile_of_between hbetween]
      exact hbetween.1
    · rw [List.dropWhile_append_of_pos htrail, dropWhile_of_between hbetween]
      exact hbetween.2
  · intro h
    obtain ⟨pre, post, rfl, hwhole⟩ := h
    have hpre : pre.rdropWhile isBlank ++ pre.rtakeWhile isBlank = pre :=
      List.rdropWhile_append_rtakeWhile
    have hpost : post.takeWhile isBlank ++ post.dropWhile isBlank = post :=
      List.takeWhile_append_dropWhile
    have hlead : ∀ c ∈ pre.rtakeWhile isBlank, isBlank c = true :=
      fun c hc => List.mem_rtakeWhile_imp hc
    have htrail : ∀ c ∈ post.takeWhile isBlank, isBlank c = true :=
      fun c hc => List.mem_takeWhile_imp hc
    have hvalue : pre ++ (t ++ post) = pre.rdropWhile isBlank ++
        ((pre.rtakeWhile isBlank ++ (t ++ post.takeWhile isBlank)) ++ post.dropWhile isBlank) := by
      calc pre ++ (t ++ post)
          = (pre.rdropWhile isBlank ++ pre.rtakeWhile isBlank) ++
              (t ++ (post.takeWhile isBlank ++ post.dropWhile isBlank)) := by rw [hpre, hpost]
        _ = _ := by simp only [List.append_assoc]
    refine ⟨_, ?_, trim_of_blanks hlead htrail hwhole.trimmed⟩
    rw [hvalue]
    apply Split.mem_of_between
    · rw [List.mem_append, List.mem_append, not_or, not_or]
      refine ⟨fun hmem => ?_, hwhole.comma, fun hmem => ?_⟩
      · exact absurd (hlead _ hmem) (by decide)
      · exact absurd (htrail _ hmem) (by decide)
    · exact ⟨hwhole.left, hwhole.right⟩

end Elements

/-! ## What the search finds -/

section Search

variable {headers name token value text : Bytes}

theorem startsWithToken_iff :
    startsWithToken token value = true ↔
      ∃ t post, value = t ++ post ∧ lowerText t = lowerText token := by
  rw [startsWithToken, Bool.and_eq_true, decide_eq_true_eq, beq_iff_eq]
  constructor
  · intro h
    exact ⟨_, _, (List.take_append_drop token.length value).symm, h.2⟩
  · intro h
    obtain ⟨t, post, rfl, heq⟩ := h
    have hlength : t.length = token.length := by
      have := congrArg List.length heq
      simpa [lowerText] using this
    refine ⟨by rw [List.length_append]; omega, ?_⟩
    rw [← hlength, List.take_left]
    exact heq

theorem holdsToken_iff :
    holdsToken token value = true ↔
      ∃ pre t post, value = pre ++ (t ++ post) ∧ lowerText t = lowerText token := by
  induction value with
  | nil =>
    rw [holdsToken, startsWithToken_iff]
    constructor
    · intro h
      obtain ⟨t, post, hvalue, heq⟩ := h
      exact ⟨[], t, post, hvalue, heq⟩
    · intro h
      obtain ⟨pre, t, post, hvalue, heq⟩ := h
      obtain ⟨-, hrest⟩ := List.append_eq_nil_iff.mp hvalue.symm
      exact ⟨t, post, hrest.symm, heq⟩
  | cons c p ih =>
    rw [holdsToken, Bool.or_eq_true, startsWithToken_iff, ih]
    constructor
    · intro h
      obtain ⟨t, post, hvalue, heq⟩ | ⟨pre, t, post, rfl, heq⟩ := h
      · exact ⟨[], t, post, hvalue, heq⟩
      · exact ⟨c :: pre, t, post, rfl, heq⟩
    · intro h
      obtain ⟨pre, t, post, hvalue, heq⟩ := h
      cases pre with
      | nil => exact .inl ⟨t, post, hvalue, heq⟩
      | cons d pre =>
        obtain ⟨rfl, rfl⟩ := List.cons.inj hvalue
        exact .inr ⟨pre, t, post, rfl, heq⟩

theorem tokenLoop_eq (fuel : Nat) :
    tokenLoop name token fuel text =
      ((headerLinesLoop fuel text).filterMap (fieldValue name)).any (holdsToken token) := by
  induction fuel generalizing text with
  | zero => rfl
  | succ fuel ih =>
    rw [tokenLoop, headerLinesLoop]
    by_cases hnil : text = []
    · rw [if_pos hnil, if_pos hnil]
      rfl
    rw [if_neg hnil, if_neg hnil]
    cases hvalue : fieldValue name (text.takeWhile (· != chLF)) with
    | none => simp only [List.filterMap_cons, hvalue, ih]
    | some value =>
      simp only [List.filterMap_cons, hvalue, List.any_cons, ih]
      by_cases hholds : holdsToken token value = true
      · rw [if_pos hholds, hholds, Bool.true_or]
      · rw [if_neg hholds, Bool.eq_false_iff.mpr hholds, Bool.false_or]

/-- **What the search finds**: an element of a list, or the text of the token inside of one. -/
theorem tokenContains_iff :
    headersTokenContains headers name token = true ↔
      HasElement headers name token ∨ StandsInside headers name token := by
  have hany : headersTokenContains headers name token = true ↔
      ∃ value ∈ valuesOf headers name, holdsToken token value = true := by
    rw [headersTokenContains, tokenLoop_eq, List.any_eq_true]
    rfl
  rw [hany]
  constructor
  · intro h
    obtain ⟨value, hmem, hholds⟩ := h
    obtain ⟨pre, t, post, hvalue, heq⟩ := holdsToken_iff.mp hholds
    by_cases hwhole : Whole pre t post
    · obtain ⟨element, helement, htrim⟩ := element_iff_whole.mpr ⟨pre, post, hvalue, hwhole⟩
      exact .inl ⟨value, hmem, element, helement, by rw [htrim, heq]⟩
    · exact .inr ⟨value, hmem, pre, t, post, hvalue, heq, hwhole⟩
  · intro h
    obtain ⟨value, hmem, element, helement, heq⟩ | ⟨value, hmem, pre, t, post, hvalue, heq, -⟩ := h
    · obtain ⟨pre, post, hvalue, -⟩ := element_iff_whole.mp ⟨element, helement, rfl⟩
      exact ⟨value, hmem, holdsToken_iff.mpr ⟨pre, _, post, hvalue, heq⟩⟩
    · exact ⟨value, hmem, holdsToken_iff.mpr ⟨pre, t, post, hvalue, heq⟩⟩

end Search

/-! ## Bodies that are decoded -/

theorem ChunkedBody.payload_length_lt (b : ChunkedBody) : b.payload.length < b.encode.length := by
  have hchunks : ∀ cs : List Chunk,
      (cs.flatMap Chunk.data).length ≤ (cs.flatMap Chunk.encode).length := by
    intro cs
    induction cs with
    | nil => exact Nat.le_refl _
    | cons c cs ih =>
      simp only [List.flatMap_cons, List.length_append, Chunk.encode]
      omega
  have hall := hchunks b.chunks
  obtain ⟨digits, ext, -, -, -, -, hlast⟩ := b.final
  have hlength : 2 ≤ b.last.length := by
    rw [hlast]
    simp only [List.length_append, crlf, List.length_cons, List.length_nil]
    omega
  rw [payload, encode, List.length_append, List.length_append]
  omega

variable {granted : Nat → Bool}

theorem parseResponse_ok {raw : Bytes} {response : HttpResponse}
    (h : parseResponse granted raw = some (.ok response)) :
    response.headers.length + 4 ≤ raw.length ∧
      responseBody granted response.headers (raw.drop (response.headers.length + 4)) =
        some (.ok response.body) := by
  unfold parseResponse at h
  split at h
  · cases h
  next headersLen hend =>
  obtain ⟨hlength, -⟩ := WebSocket.findHeaderEnd_split hend
  split at h
  · cases h
  split at h
  · cases h
  split at h
  · cases h
  split at h
  · cases h
  next headers hheaders =>
  obtain ⟨body, hbody, hresponse⟩ := Option.map_eq_some_iff.mp h
  cases body with
  | error e => cases hresponse
  | ok body =>
    cases hresponse
    obtain rfl : raw.take headersLen = headers := by
      unfold strndup at hheaders
      split at hheaders
      · exact Except.ok.inj hheaders
      · cases hheaders
    have htake : (raw.take headersLen).length = headersLen := List.length_take_of_le (by omega)
    simp only [htake]
    exact ⟨hlength, hbody⟩

theorem responseBody_ok {headers body out : Bytes}
    (hbody : body.length < 2 ^ 63) (h : responseBody granted headers body = some (.ok out)) :
    out ≠ body ↔ headersTokenContains headers transferEncoding chunkedToken = true := by
  have hcopy : ∀ {data : Bytes}, strndup granted data = .ok out → out = data := by
    intro data hdata
    unfold strndup at hdata
    split at hdata
    · exact (Except.ok.inj hdata).symm
    · cases hdata
  unfold responseBody at h
  by_cases hcontains : headersTokenContains headers transferEncoding chunkedToken = true
  · rw [if_pos hcontains] at h
    obtain ⟨r, hdecoded, hout⟩ := Option.map_eq_some_iff.mp h
    obtain ⟨status, buffer, hrun, hdecodes⟩ := decodeChunkedBody_decodes granted body hbody
    rw [hrun] at hdecoded
    obtain rfl := Option.some.inj hdecoded
    split at hout
    · cases hout
    · next hok =>
      obtain ⟨b, hencode, hdata⟩ := hdecodes.sound (by simpa using hok)
      have hpayload : buffer.data = b.payload := hdata
      have hshorter := b.payload_length_lt
      rw [← hencode, ← hpayload, ← hcopy hout] at hshorter
      refine iff_of_true (fun heq => ?_) hcontains
      rw [heq] at hshorter
      exact absurd hshorter (Nat.lt_irrefl _)
  · rw [if_neg hcontains] at h
    exact iff_of_false (fun hne => hne (hcopy (Option.some.inj h))) hcontains

/-- **The header search.**  It answers the question for list elements exactly where a token
that stands inside the value of some line of the name is also an element of such a line;
and exactly there a response is handed on with a body of its own only if `chunked` is one
of its transfer codings. -/
theorem headers_token_exact (headers name token : Bytes) :
    ((headersTokenContains headers name token = true ↔ HasElement headers name token) ↔
      (StandsInside headers name token → HasElement headers name token)) ∧
    ∀ (granted : Nat → Bool) (raw : Bytes) (response : HttpResponse), raw.length < 2 ^ 63 →
      parseResponse granted raw = some (.ok response) →
        ((response.body ≠ raw.drop (response.headers.length + 4) →
            HasElement response.headers transferEncoding chunkedToken) ↔
          (StandsInside response.headers transferEncoding chunkedToken →
            HasElement response.headers transferEncoding chunkedToken)) := by
  constructor
  · rw [tokenContains_iff]
    constructor
    · intro h hinside
      exact h.mp (.inr hinside)
    · intro h
      exact ⟨fun hfound => hfound.elim id h, .inl⟩
  · intro granted raw response hlength hparse
    obtain ⟨-, hbody⟩ := parseResponse_ok hparse
    rw [responseBody_ok (by rw [List.length_drop]; omega) hbody, tokenContains_iff]
    constructor
    · intro h hinside
      exact h (.inr hinside)
    · intro h hfound
      exact hfound.elim id h

/-- `Transfer-Encoding: gzip, chunked` and the body `0\r\n\r\n`. -/
def codedResponse : Bytes :=
  [0x48, 0x54, 0x54, 0x50, 0x2f, 0x31, 0x2e, 0x31, 0x20, 0x32, 0x30, 0x30, 13, 10, 0x54, 0x72, 0x61,
    0x6e, 0x73, 0x66, 0x65, 0x72, 0x2d, 0x45, 0x6e, 0x63, 0x6f, 0x64, 0x69, 0x6e, 0x67, 0x3a, 0x20,
    0x67, 0x7a, 0x69, 0x70, 0x2c, 0x20, 0x63, 0x68, 0x75, 0x6e, 0x6b, 0x65, 0x64, 13, 10, 13, 10,
    0x30, 13, 10, 13, 10]

theorem headers_token_exact_coded :
    ∃ response, parseResponse (fun _ => true) codedResponse = some (.ok response) ∧
      response.body = [] ∧
      ((response.body ≠ codedResponse.drop (response.headers.length + 4) →
          HasElement response.headers transferEncoding chunkedToken) ↔
        (StandsInside response.headers transferEncoding chunkedToken →
          HasElement response.headers transferEncoding chunkedToken)) := by
  have hparse : parseResponse (fun _ => true) codedResponse =
      some (.ok ⟨200, codedResponse.take 46, []⟩) := by decide +kernel
  exact ⟨_, hparse, rfl,
    (headers_token_exact [] [] []).2 (fun _ => true) codedResponse _ (by decide) hparse⟩

/-- `Transfer-Encoding: notchunked`. -/
def notchunkedHeaders : Bytes :=
  [0x54, 0x72, 0x61, 0x6e, 0x73, 0x66, 0x65, 0x72, 0x2d, 0x45, 0x6e, 0x63, 0x6f, 0x64, 0x69, 0x6e,
    0x67, 0x3a, 0x20, 0x6e, 0x6f, 0x74, 0x63, 0x68, 0x75, 0x6e, 0x6b, 0x65, 0x64]

/-- `notchunked` is taken for `chunked`. -/
theorem notchunked_found :
    ¬ ∀ headers name token : Bytes,
      headersTokenContains headers name token = true ↔ HasElement headers name token := by
  intro hall
  have hfound : headersTokenContains notchunkedHeaders transferEncoding chunkedToken = true := by
    decide +kernel
  have hnone : ¬ HasElement notchunkedHeaders transferEncoding chunkedToken := by decide +kernel
  exact hnone ((hall _ _ _).mp hfound)

end Dcc.Http
