import Mathlib.Data.List.DropRight
import Dcc.Interactions.Server
import Dcc.Ws.HeaderText

/-!
# The header block of a request

Two functions read the header block of a request: `dcc_interaction_parse_content_length`
goes over its bytes to frame the body, and `dcc_interaction_parse_headers` cuts a copy of it,
as a C string, into the header list of the request.

* `Lines` — a header block as its lines, and `block_of_headerEnd`: every header block has them;
* `parseContentLength_lines`, `headersLoop_lines` — the two functions over the lines;
* `content_length_agrees` — without NUL bytes the length is that of the first
  `Content-Length` entry of the list, as long as the list has room for all entries;
* `full_list_differs` — behind a full list it is not in the list.
-/

namespace Dcc.Interactions

open WebSocket (crlf blankLine terminatedText)

/-! ## The scan -/

/-- `dcc_interaction_find_header_end`: the length of the header with its blank line.  The search
is that of the handshake. -/
def findHeaderEnd (data : Bytes) : Option Nat := (WebSocket.findHeaderEnd data).map (· + 4)

/-- `dcc_interaction_line_end`, and `strstr` with `"\r\n"`: the line and what follows it. -/
def cutLine : Bytes → Option (Bytes × Bytes)
  | [] => none
  | b :: rest =>
    if crlf.isPrefixOf (b :: rest) then some ([], rest.drop 1)
    else (cutLine rest).map fun cut => (b :: cut.1, cut.2)

/-- `' '` and `'\t'`. -/
def isBlank (ch : UInt8) : Bool := ch == 32 || ch == 9

/-- `':'`. -/
def chColon : UInt8 := 58

/-- `"content-length"`. -/
def contentLengthName : Bytes := [99, 111, 110, 116, 101, 110, 116, 45, 108, 101, 110, 103, 116, 104]

/-- The loop over the digits of the value. -/
def parseLengthDigits (parsed : Nat) : Bytes → Except Status Nat
  | [] => .ok parsed
  | ch :: value =>
    if ch < 48 ∨ ch > 57 then .error .json
    else
      let digit := ch.toNat - 48
      if parsed > (wordMax - digit) / 10 then .error .nomem
      else parseLengthDigits ((parsed * 10 + digit) % wordSize) value

/-- What the loop over the lines does with one of them, unless it goes on. -/
def scanLine (line : Bytes) : Option (Except Status Nat) :=
  let front := line.takeWhile (· != chColon)
  if front.length < line.length then
    if asciiEq (front.rdropWhile isBlank) contentLengthName then
      let value := (line.drop (front.length + 1)).dropWhile isBlank
      if value = [] then some (.error .json) else some (parseLengthDigits 0 value)
    else none
  else none

/-- The loop of `dcc_interaction_parse_content_length` over the lines. -/
def contentLengthLoop : Nat → Bytes → Except Status Nat
  | 0, _ => .ok 0
  | fuel + 1, cur =>
    if cur = [] then .ok 0
    else
      match cutLine cur with
      | none => .error .json
      | some (line, rest) =>
        if line = [] then .ok 0
        else
          match scanLine line with
          | some result => result
          | none => contentLengthLoop fuel rest

/-- `dcc_interaction_parse_content_length`; every round leaves less of the block. -/
def parseContentLength (headers : Bytes) : Except Status Nat :=
  match cutLine headers with
  | none => .error .json
  | some (_, rest) => contentLengthLoop rest.length rest

/-! ## The list -/

/-- `dcc_interaction_trim_header_value`. -/
def trimHeaderValue (value : Bytes) : Bytes := (value.dropWhile isBlank).rdropWhile isBlank

/-- `sizeof(request->method)`. -/
def methodSize : Nat := 16

/-- `sizeof(request->path)`. -/
def pathSize : Nat := 256

/-- `DCC_INTERACTION_HEADER_CAP`. -/
def headerCap : Nat := 32

/-- `dcc_interaction_parse_request_line`. -/
def parseRequestLine (line : Bytes) : Except Status (Bytes × Bytes) :=
  let method := line.takeWhile (· != 32)
  if method.length = line.length then .error .json
  else
    let rest := (line.drop (method.length + 1)).dropWhile (· == 32)
    let path := rest.takeWhile (· != 32)
    if path.length = rest.length then .error .json
    else if method.length = 0 ∨ method.length ≥ methodSize ∨ path.length = 0 ∨
        path.length ≥ pathSize then .error .json
    else .ok (method, path)

/-- The name and the value of a line that has a colon, and a name in front of it. -/
def headerOf (line : Bytes) : Option (Bytes × Bytes) :=
  let front := line.takeWhile (· != chColon)
  if front.length < line.length then
    let name := front.rdropWhile isBlank
    if name ≠ [] then some (name, trimHeaderValue (line.drop (front.length + 1))) else none
  else none

/-- What a line adds to the list. -/
def addHeader (headers : List (Bytes × Bytes)) (line : Bytes) : List (Bytes × Bytes) :=
  match headerOf line with
  | some header => if headers.length < headerCap then headers ++ [header] else headers
  | none => headers

/-- The loop of `dcc_interaction_parse_headers` over the lines of a C string. -/
def headersLoop : Nat → Bytes → List (Bytes × Bytes) → List (Bytes × Bytes)
  | 0, _, headers => headers
  | fuel + 1, cur, headers =>
    if cur = [] then headers
    else
      match cutLine (terminatedText cur) with
      | none => headers
      | some (line, _) =>
        if line = [] then headers
        else headersLoop fuel (cur.drop (line.length + 2)) (addHeader headers line)

/-- `dcc_interaction_parse_headers`: the request, still without a body.  `granted` is what
`malloc` grants. -/
def parseHeaders (granted : Nat → Bool) (block : Bytes) : Except Status Request :=
  if block.length = wordMax then .error .nomem
  else if !granted (wordAdd block.length 1) then .error .nomem
  else
    match cutLine (terminatedText block) with
    | none => .error .json
    | some (line, _) =>
      match parseRequestLine line with
      | .error status => .error status
      | .ok (method, path) =>
        let rest := block.drop (line.length + 2)
        .ok { method, path, headers := headersLoop rest.length rest [], body := [] }

/-! ## Lines -/

section Cut

variable {text line rest tail : Bytes}

theorem cutLine_eq (h : cutLine text = some (line, rest)) :
    text = line ++ (crlf ++ rest) ∧ cutLine line = none := by
  induction text generalizing line with
  | nil => cases h
  | cons b text ih =>
    rw [cutLine] at h
    split at h
    · next hprefix =>
      cases h
      obtain ⟨after, hafter⟩ := List.isPrefixOf_iff_prefix.mp hprefix
      refine ⟨?_, rfl⟩
      rw [← hafter]
      cases hafter
      rfl
    · next hprefix =>
      obtain ⟨cut, hcut, heq⟩ := Option.map_eq_some_iff.mp h
      cases heq
      obtain ⟨htext, hnone⟩ := ih hcut
      refine ⟨congrArg (b :: ·) htext, ?_⟩
      rw [cutLine, hnone, if_neg]
      · rfl
      · intro hline
        apply hprefix
        rw [htext, List.isPrefixOf_iff_prefix]
        exact (List.isPrefixOf_iff_prefix.mp hline).trans
          (List.prefix_append (b :: cut.1) (crlf ++ cut.2))

theorem cutLine_append (h : cutLine line = none) (rest : Bytes) :
    cutLine (line ++ (crlf ++ rest)) = some (line, rest) := by
  induction line with
  | nil => simp [cutLine, crlf]
  | cons b line ih =>
    rw [cutLine] at h
    split at h
    · cases h
    · next hprefix =>
      rw [List.cons_append, cutLine, if_neg, ih (Option.map_eq_none_iff.mp h)]
      · rfl
      · cases line with
        | nil => simp [crlf]
        | cons c line => simpa [crlf] using hprefix

theorem cutLine_ne_none (front rest : Bytes) : cutLine (front ++ (crlf ++ rest)) ≠ none := by
  induction front with
  | nil => simp [cutLine, crlf]
  | cons b front ih =>
    rw [List.cons_append, cutLine]
    split
    · simp
    · simpa using ih

theorem cutLine_none_of_prefix (h : cutLine text = none) (hpart : line <+: text) :
    cutLine line = none := by
  cases hline : cutLine line with
  | none => rfl
  | some cut =>
    obtain ⟨after, rfl⟩ := hpart
    obtain ⟨hcut, -⟩ := cutLine_eq hline
    rw [hcut, List.append_assoc, List.append_assoc] at h
    exact absurd h (cutLine_ne_none _ _)

theorem cutLine_terminated (h : cutLine line = none) (rest : Bytes) :
    cutLine (terminatedText (line ++ (crlf ++ rest))) =
      if 0 ∈ line then none else some (line, terminatedText rest) := by
  unfold terminatedText
  by_cases hnul : 0 ∈ line
  · rw [if_pos hnul, List.takeWhile_append, if_neg]
    · exact cutLine_none_of_prefix h (List.takeWhile_prefix _)
    · intro hlength
      have hall := (List.takeWhile_prefix (p := (· != 0)) (l := line)).eq_of_length hlength
      rw [← hall] at hnul
      simpa using List.mem_takeWhile_imp hnul
  · have hline : line.takeWhile (· != 0) = line :=
      by
      refine List.takeWhile_eq_self_iff.mpr fun c hc => ?_
      rw [bne_iff_ne]
      exact fun hzero => hnul (hzero ▸ hc)
    rw [if_neg hnul, List.takeWhile_append, hline, if_pos rfl]
    have hcrlf : (crlf ++ rest).takeWhile (· != 0) = crlf ++ rest.takeWhile (· != 0) := by
      simp [crlf]
    rw [hcrlf]
    exact cutLine_append h _

end Cut

/-- A header after its request line: lines that are not empty, up to the empty one. -/
inductive Lines : Bytes → List Bytes → Prop
  | last : Lines crlf []
  | cons {line rest : Bytes} {lines : List Bytes} (hne : line ≠ []) (hcut : cutLine line = none)
      (h : Lines rest lines) : Lines (line ++ (crlf ++ rest)) (line :: lines)

/-- A whole header: its request line and the other ones. -/
structure Block (block line : Bytes) (lines : List Bytes) : Prop where
  cut : cutLine line = none
  text : ∃ rest, block = line ++ (crlf ++ rest) ∧ Lines rest lines

/-- The lines up to the first empty one. -/
def linesLoop : Nat → Bytes → List Bytes
  | 0, _ => []
  | fuel + 1, cur =>
    match cutLine cur with
    | none => []
    | some (line, rest) => if line = [] then [] else line :: linesLoop fuel rest

/-- The request line of a header block. -/
def requestLine (block : Bytes) : Option Bytes := (cutLine block).map Prod.fst

/-- The lines of a header block after its request line. -/
def headerLines (block : Bytes) : List Bytes :=
  match cutLine block with
  | none => []
  | some (_, rest) => linesLoop rest.length rest

variable {fuel : Nat}

theorem Lines.loop_eq {rest : Bytes} {lines : List Bytes} (h : Lines rest lines)
    (hfuel : rest.length ≤ fuel) : linesLoop fuel rest = lines := by
  induction h generalizing fuel with
  | last =>
    cases fuel with
    | zero => simp [crlf] at hfuel
    | succ fuel => rfl
  | @cons line rest lines hne hcut h ih =>
    cases fuel with
    | zero => simp [hne] at hfuel
    | succ fuel =>
      simp only [linesLoop, cutLine_append hcut, if_neg hne]
      rw [ih]
      simp only [List.length_append, crlf, List.length_cons, List.length_nil] at hfuel
      omega

theorem Block.requestLine_eq {block line : Bytes} {lines : List Bytes} (h : Block block line lines) :
    requestLine block = some line := by
  obtain ⟨hcut, rest, rfl, -⟩ := h
  rw [requestLine, cutLine_append hcut]
  rfl

theorem Block.headerLines_eq {block line : Bytes} {lines : List Bytes} (h : Block block line lines) :
    headerLines block = lines := by
  obtain ⟨hcut, rest, rfl, hlines⟩ := h
  simp only [headerLines, cutLine_append hcut]
  exact hlines.loop_eq (Nat.le_refl _)

theorem block_of_blankLine {front : Bytes}
    (hfirst : ∀ j < front.length, ¬ blankLine <+: (front ++ blankLine).drop j) :
    ∃ line lines, Block (front ++ blankLine) line lines := by
  induction front with
  | nil => exact ⟨[], [], rfl, crlf, rfl, .last⟩
  | cons b front ih =>
    have hlater : ∀ j < front.length, ¬ blankLine <+: (front ++ blankLine).drop j :=
      fun j hj => hfirst (j + 1) (Nat.succ_lt_succ hj)
    obtain ⟨line, lines, hcut, rest, htext, hlines⟩ := ih hlater
    by_cases hprefix : crlf.isPrefixOf (b :: line)
    · -- a line end begins here, so the line that was found loses its line feed
      cases line with
      | nil => simp [crlf] at hprefix
      | cons c line =>
        obtain ⟨rfl, rfl⟩ : 13 = b ∧ 10 = c := by simpa [crlf] using hprefix
        have hcut' : cutLine line = none := by
          rw [cutLine, if_neg (by simp [crlf])] at hcut
          exact Option.map_eq_none_iff.mp hcut
        have hne : line ≠ [] := by
          intro hnil
          subst hnil
          apply hfirst 0 (Nat.zero_lt_succ _)
          rw [List.drop_zero, List.cons_append, htext]
          exact List.prefix_append blankLine rest
        refine ⟨[], line :: lines, rfl, line ++ (crlf ++ rest), ?_, .cons hne hcut' hlines⟩
        rw [List.cons_append, htext]
        rfl
    · refine ⟨b :: line, lines, ?_, rest, ?_, hlines⟩
      · rw [cutLine, if_neg hprefix, hcut]
        rfl
      · rw [List.cons_append, htext]
        rfl

/-- **Every header has lines.** -/
theorem block_of_headerEnd {data : Bytes} {n : Nat} (h : findHeaderEnd data = some n) :
    n ≤ data.length ∧ ∃ line lines, Block (data.take n) line lines := by
  obtain ⟨i, hi, rfl⟩ := Option.map_eq_some_iff.mp h
  obtain ⟨hlength, front, hfront⟩ := WebSocket.findHeaderEnd_split hi
  refine ⟨hlength, ?_⟩
  rw [hfront]
  apply block_of_blankLine
  intro j hj hprefix
  have hi' : front.length = i := by
    have hlengths := congrArg List.length hfront
    rw [List.length_take, List.length_append] at hlengths
    simp only [blankLine, List.length_cons, List.length_nil] at hlengths
    omega
  apply WebSocket.findHeaderEnd_first hi j (by omega)
  rw [← hfront, List.drop_take] at hprefix
  exact hprefix.trans (List.take_prefix _ _)

/-! ## The two functions over the lines -/

section Over

variable {rest line block : Bytes} {lines : List Bytes} {headers : List (Bytes × Bytes)}

/-- The length over the lines. -/
def lengthOver : List Bytes → Except Status Nat
  | [] => .ok 0
  | line :: lines =>
    match scanLine line with
    | some result => result
    | none => lengthOver lines

theorem contentLengthLoop_lines (h : Lines rest lines) (hfuel : rest.length ≤ fuel) :
    contentLengthLoop fuel rest = lengthOver lines := by
  induction h generalizing fuel with
  | last =>
    cases fuel with
    | zero => simp [crlf] at hfuel
    | succ fuel => rfl
  | @cons line rest lines hne hcut h ih =>
    cases fuel with
    | zero => simp [hne] at hfuel
    | succ fuel =>
      rw [contentLengthLoop, if_neg (by simp [hne])]
      simp only [cutLine_append hcut, if_neg hne, lengthOver]
      rw [ih]
      simp only [List.length_append, crlf, List.length_cons, List.length_nil] at hfuel
      omega

theorem parseContentLength_lines (h : Block block line lines) :
    parseContentLength block = lengthOver lines := by
  obtain ⟨hcut, rest, rfl, hlines⟩ := h
  simp only [parseContentLength, cutLine_append hcut]
  exact contentLengthLoop_lines hlines (Nat.le_refl _)

/-- The lines up to the first one with a NUL. -/
def linesRead (lines : List Bytes) : List Bytes := lines.takeWhile fun line => 0 ∉ line

theorem headersLoop_lines (h : Lines rest lines) (hfuel : rest.length ≤ fuel) :
    headersLoop fuel rest headers = (linesRead lines).foldl addHeader headers := by
  induction h generalizing fuel headers with
  | last =>
    cases fuel with
    | zero => simp [crlf] at hfuel
    | succ fuel => rfl
  | @cons line rest lines hne hcut h ih =>
    cases fuel with
    | zero => simp [hne] at hfuel
    | succ fuel =>
      rw [headersLoop, if_neg (by simp [hne]), cutLine_terminated hcut]
      by_cases hnul : 0 ∈ line
      · simp [hnul, linesRead]
      · have hdrop : (line ++ (crlf ++ rest)).drop (line.length + 2) = rest := by
          rw [List.drop_append]
          simp [crlf]
        simp only [if_neg hnul, if_neg hne, hdrop]
        rw [ih, linesRead, linesRead, List.takeWhile_cons_of_pos (by simpa using hnul),
          List.foldl_cons]
        simp only [List.length_append, crlf, List.length_cons, List.length_nil] at hfuel
        omega

theorem foldl_addHeader (headers : List (Bytes × Bytes)) (lines : List Bytes)
    (hroom : headers.length ≤ headerCap) :
    lines.foldl addHeader headers = (headers ++ lines.filterMap headerOf).take headerCap := by
  induction lines generalizing headers with
  | nil => simpa using (List.take_of_length_le hroom).symm
  | cons line lines ih =>
    rw [List.foldl_cons, addHeader, List.filterMap_cons]
    cases headerOf line with
    | none => exact ih headers hroom
    | some header =>
      by_cases hlt : headers.length < headerCap
      · simp only [if_pos hlt]
        rw [ih _ (by rw [List.length_append]; exact hlt)]
        simp
      · simp only [if_neg hlt]
        obtain heq : headers.length = headerCap := by omega
        rw [ih _ hroom, List.take_append_of_le_length (by omega),
          List.take_append_of_le_length (by omega)]

theorem parseHeaders_lines {granted : Nat → Bool} {request : Request} (h : Block block line lines)
    (hok : parseHeaders granted block = .ok request) :
    parseRequestLine line = .ok (request.method, request.path) ∧ 0 ∉ line ∧
      request.headers = ((linesRead lines).filterMap headerOf).take headerCap ∧
        request.body = [] := by
  obtain ⟨hcut, rest, rfl, hlines⟩ := h
  unfold parseHeaders at hok
  rw [cutLine_terminated hcut] at hok
  split at hok
  · cases hok
  split at hok
  · cases hok
  by_cases hnul : 0 ∈ line
  · simp [hnul] at hok
  have hdrop : (line ++ (crlf ++ rest)).drop (line.length + 2) = rest := by
    rw [List.drop_append]
    simp [crlf]
  simp only [if_neg hnul, hdrop] at hok
  split at hok
  · cases hok
  · next hline =>
    cases hok
    refine ⟨hline, hnul, ?_, rfl⟩
    rw [headersLoop_lines hlines (Nat.le_refl _), foldl_addHeader _ _ (Nat.zero_le _)]
    rfl

end Over

/-! ## The two views -/

/-- The value of the first `Content-Length` entry of a list. -/
def firstContentLength (headers : List (Bytes × Bytes)) : Option Bytes :=
  (headers.find? fun header => asciiEq header.1 contentLengthName).map Prod.snd

/-- A number in decimal, with any number of leading zeros. -/
structure IsDecimal (value : Bytes) (n : Nat) : Prop where
  ne_nil : value ≠ []
  digit : ∀ ch ∈ value, 48 ≤ ch ∧ ch ≤ 57
  value : value.foldl (fun parsed ch => parsed * 10 + (ch.toNat - 48)) 0 = n

section Views

variable {line value : Bytes} {lines : List Bytes} {n parsed : Nat}

/-- **The digits are added up without a wrap.** -/
theorem parseLengthDigits_ok (hparsed : parsed ≤ wordMax)
    (h : parseLengthDigits parsed value = .ok n) :
    (∀ ch ∈ value, 48 ≤ ch ∧ ch ≤ 57) ∧
      value.foldl (fun parsed ch => parsed * 10 + (ch.toNat - 48)) parsed = n ∧ n ≤ wordMax := by
  induction value generalizing parsed with
  | nil =>
    cases h
    exact ⟨by simp, rfl, hparsed⟩
  | cons ch value ih =>
    rw [parseLengthDigits] at h
    split at h
    · cases h
    next hdigit =>
      rw [not_or, UInt8.not_lt, UInt8.not_lt] at hdigit
      have hsmall : ch.toNat - 48 ≤ 9 := by
        have hle := UInt8.le_iff_toNat_le.mp hdigit.2
        simp only [UInt8.reduceToNat] at hle
        omega
      simp only at h
      split at h
      · cases h
      next hroom =>
        have hnext : parsed * 10 + (ch.toNat - 48) ≤ wordMax := by
          have hmax : wordMax = 2 ^ 64 - 1 := rfl
          omega
        rw [Nat.mod_eq_of_lt (by unfold wordMax at hnext; unfold wordSize at *; omega)] at h
        obtain ⟨hrest, hfold, hn⟩ := ih hnext h
        exact ⟨List.forall_mem_cons.mpr ⟨hdigit, hrest⟩, hfold, hn⟩

theorem scanLine_ok (h : scanLine line = some (.ok n)) :
    ∃ name value, headerOf line = some (name, value) ∧ asciiEq name contentLengthName = true ∧
      IsDecimal value n := by
  unfold scanLine at h
  simp only at h
  split at h
  · next hcolon =>
    split at h
    · next hname =>
      split at h
      · cases h
      · next hvalue =>
        obtain ⟨hdigit, hfold, -⟩ :=
          parseLengthDigits_ok (Nat.zero_le _) (Option.some.inj h)
        have hne : (line.takeWhile (· != chColon)).rdropWhile isBlank ≠ [] := by
          intro hnil
          rw [hnil] at hname
          revert hname
          decide
        have hkeep : trimHeaderValue (line.drop ((line.takeWhile (· != chColon)).length + 1)) =
            (line.drop ((line.takeWhile (· != chColon)).length + 1)).dropWhile isBlank := by
          rw [trimHeaderValue, List.rdropWhile_eq_self_iff]
          intro hlast
          have hch := hdigit _ (List.getLast_mem hlast)
          generalize List.getLast _ hlast = ch at hch
          obtain ⟨hlow, -⟩ := hch
          intro hblank
          simp only [isBlank, Bool.or_eq_true, beq_iff_eq] at hblank
          obtain rfl | rfl := hblank <;> exact absurd hlow (by decide)
        refine ⟨_, _, ?_, hname, hvalue, hdigit, hfold⟩
        simp only [headerOf, if_pos hcolon, if_pos hne, hkeep]
    · cases h
  · cases h

theorem scanLine_none (h : scanLine line = none) {header : Bytes × Bytes}
    (hheader : headerOf line = some header) : asciiEq header.1 contentLengthName = false := by
  unfold headerOf at hheader
  unfold scanLine at h
  simp only at h hheader
  split at hheader
  · next hcolon =>
    split at hheader
    · cases hheader
      rw [if_pos hcolon] at h
      split at h
      · split at h <;> cases h
      · next hname => exact Bool.eq_false_iff.mpr hname
    · cases hheader
  · cases hheader

/-- **The length over the lines is that of the first entry among all of them**, and 0 where
there is none. -/
theorem lengthOver_ok (h : lengthOver lines = .ok n) :
    (∀ value, firstContentLength (lines.filterMap headerOf) = some value → IsDecimal value n) ∧
      (firstContentLength (lines.filterMap headerOf) = none → n = 0) := by
  induction lines with
  | nil =>
    cases h
    refine ⟨fun value hvalue => ?_, fun _ => rfl⟩
    simp [firstContentLength] at hvalue
  | cons line lines ih =>
    rw [lengthOver] at h
    cases hscan : scanLine line with
    | some result =>
      rw [hscan] at h
      obtain rfl : result = .ok n := h
      obtain ⟨name, value, hheader, hname, hdecimal⟩ := scanLine_ok hscan
      have hfirst : firstContentLength ((line :: lines).filterMap headerOf) = some value := by
        rw [firstContentLength, List.filterMap_cons_some hheader, List.find?_cons]
        simp only [hname]
        rfl
      rw [hfirst]
      refine ⟨fun value' hvalue => ?_, fun hnone => by cases hnone⟩
      cases hvalue
      exact hdecimal
    | none =>
      rw [hscan] at h
      have hskip : firstContentLength ((line :: lines).filterMap headerOf) =
          firstContentLength (lines.filterMap headerOf) := by
        rw [firstContentLength, firstContentLength]
        cases hheader : headerOf line with
        | none => rw [List.filterMap_cons_none hheader]
        | some header =>
          rw [List.filterMap_cons_some hheader, List.find?_cons_of_neg]
          rw [scanLine_none hscan hheader]
          exact Bool.false_ne_true
      rw [hskip]
      exact ih h

end Views

theorem Lines.mem {rest line : Bytes} {lines : List Bytes} (h : Lines rest lines)
    (hline : line ∈ lines) : line ⊆ rest := by
  induction h with
  | last => cases hline
  | cons _ _ _ ih =>
    rcases List.mem_cons.mp hline with rfl | hmem
    · exact List.subset_append_left _ _
    · exact List.Subset.trans (ih hmem)
        (List.Subset.trans (List.subset_append_right _ _) (List.subset_append_right _ _))

theorem Block.linesRead_eq {block line : Bytes} {lines : List Bytes} (h : Block block line lines)
    (hnul : 0 ∉ block) : linesRead lines = lines := by
  obtain ⟨-, rest, rfl, hlines⟩ := h
  refine List.takeWhile_eq_self_iff.mpr fun line hline => ?_
  have hrest : 0 ∉ rest := fun hmem => hnul (by simp [hmem])
  simpa using fun hmem => hrest (hlines.mem hline hmem)

/-- The two views of a header block agree: the length is the value of the first
`Content-Length` entry of the list, and it is 0 exactly when the list has none. -/
def ViewsAgree (block : Bytes) : Prop :=
  ∀ granted n request, parseContentLength block = .ok n → parseHeaders granted block = .ok request →
    (∀ value, firstContentLength request.headers = some value → IsDecimal value n) ∧
      (n = 0 ↔ firstContentLength request.headers = none)

/-- **The views agree up to the capacity of the list.**  In a block without NUL bytes, the
length is the value of the first `Content-Length` entry of the list if there is one, and 0 if
there is none and the list is not full. -/
theorem content_length_agrees {granted : Nat → Bool} {block : Bytes} {n : Nat} {request : Request}
    (hblock : findHeaderEnd block = some block.length) (hnul : 0 ∉ block)
    (hlength : parseContentLength block = .ok n)
    (hheaders : parseHeaders granted block = .ok request) :
    (∀ value, firstContentLength request.headers = some value → IsDecimal value n) ∧
      (firstContentLength request.headers = none → request.headers.length < headerCap → n = 0) := by
  obtain ⟨-, line, lines, hlines⟩ := block_of_headerEnd hblock
  rw [List.take_length] at hlines
  rw [parseContentLength_lines hlines] at hlength
  obtain ⟨-, -, hlist, -⟩ := parseHeaders_lines hlines hheaders
  rw [hlines.linesRead_eq hnul] at hlist
  obtain ⟨hvalue, hnone⟩ := lengthOver_ok hlength
  generalize lines.filterMap headerOf = entries at *
  rw [hlist]
  refine ⟨fun value hfirst => hvalue value ?_, fun hfirst hroom => hnone ?_⟩
  · obtain ⟨entry, hentry, rfl⟩ := Option.map_eq_some_iff.mp hfirst
    rw [firstContentLength, (List.take_prefix headerCap entries).find?_eq_some hentry]
    rfl
  · rw [List.length_take] at hroom
    rwa [List.take_of_length_le (by omega)] at hfirst

/-- `"GET / 
"`. -/
def plainRequest : Bytes := [71, 69, 84, 32, 47, 32, 13, 10]

/-- `"Content-Length: 5
"`. -/
def lengthFive : Bytes :=
  [67, 111, 110, 116, 101, 110, 116, 45, 76, 101, 110, 103, 116, 104, 58, 32, 53, 13, 10]

/-- A block with so many lines `"a:"` in front of its `Content-Length`. -/
def behindEntries (count : Nat) : Bytes :=
  plainRequest ++ (List.replicate count [97, 58, 13, 10]).flatten ++ lengthFive ++ crlf

theorem content_length_agrees_one :
    firstContentLength [(([97] : Bytes), []), (lengthFive.take 14, [53])] = some [53] ∧
      IsDecimal [53] 5 := by
  have h := @content_length_agrees (fun _ => true) (behindEntries 1) 5
    ⟨[71, 69, 84], [47], [([97], []), (lengthFive.take 14, [53])], []⟩
    (by decide) (by decide) (by rfl) (by rfl)
  exact ⟨by decide, h.1 _ (by decide)⟩

set_option maxRecDepth 20000 in
/-- Behind 32 other entries the length is not in the list. -/
theorem full_list_differs :
    ¬ ∀ block, findHeaderEnd block = some block.length → ViewsAgree block := by
  intro h
  obtain ⟨-, hzero⟩ := h (behindEntries 32) (by decide +kernel) (fun _ => true) 5
    ⟨[71, 69, 84], [47], List.replicate 32 ([97], []), []⟩ (by rfl) (by rfl)
  exact absurd (hzero.mpr (by decide +kernel)) (by decide)

end Dcc.Interactions
