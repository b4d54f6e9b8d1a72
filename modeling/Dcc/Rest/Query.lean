import Dcc.Lib.Decimal
import Dcc.Rest.Buffer

/-!
# Path segments and query texts

A text from the caller is put into a path or a query with every byte escaped that is not in the
unreserved set.  Query parameters go into a buffer, with `&` in front of each but the first.

* `escapePathSegment_spec` — the two passes agree, so the text fills its block and decodes to the
  value;
* `parseQuery_queryText` — a query of pairs, split and decoded, is the pairs;
* `escaped_text_inert` — when the text of a segment is inert, and what a query of calls reads back
  as.
-/

namespace Dcc.Rest

open Dcc.Json Decimal

/-! ## Escapes -/

/-- `dcc_rest_path_unreserved`. -/
def pathUnreserved (c : UInt8) : Bool :=
  (0x41 ≤ c && c ≤ 0x5a) || (0x61 ≤ c && c ≤ 0x7a) || (0x30 ≤ c && c ≤ 0x39) || c == 0x2d ||
    c == 0x2e || c == 0x5f || c == 0x7e

/-- The measuring pass, on `encoded_len`. -/
def encodedLen : Bytes → Nat → Except Status Nat
  | [], len => if len = wordMax then .error .nomem else .ok len
  | c :: rest, len =>
    let add := if pathUnreserved c then 1 else 3
    if wordMax - add < len then .error .nomem else encodedLen rest (len + add)

/-- The encoding pass at one byte. -/
def escapeSegmentByte (c : UInt8) : Bytes :=
  if pathUnreserved c then [c] else [0x25, hexDigit (c >>> 4), hexDigit (c &&& 0x0f)]

/-- `dcc_rest_escape_path_segment`: the block with the text and its terminator; `none` where a
write would leave the block. -/
def escapePathSegment (heap : Heap) : Option Bytes → Option (Except Status Bytes)
  | none | some [] => some (.error .invalidArg)
  | some value =>
    match encodedLen value 0 with
    | .error status => some (.error status)
    | .ok len =>
      if heap.grants (len + 1) then
        (copyInto ((List.range (len + 1)).map heap.stale) 0
          (value.flatMap escapeSegmentByte ++ [0])).map .ok
      else some (.error .nomem)

/-! ## Query parameters -/

/-- What is appended of a parameter. -/
def pairSteps (query : Buffer) (key text : Bytes) : List (Except Status Bytes) :=
  (if query.len ≠ 0 then [.ok [0x26]] else []) ++ [.ok key, .ok [0x3d], .ok text]

/-- `dcc_rest_query_append_u64_value`. -/
def queryAppendU64Value (heap : Heap) (query : Buffer) (key : Option Bytes) (value : UInt64) :
    Option (Status × Buffer) :=
  match key with
  | none | some [] => some (.invalidArg, query)
  | some key => appendSteps heap query (pairSteps query key (decimalText value.toNat))

/-- `dcc_rest_query_append_u64`. -/
def queryAppendU64 (heap : Heap) (query : Buffer) (key : Option Bytes) (value : UInt64) :
    Option (Status × Buffer) :=
  match key with
  | none | some [] => some (.invalidArg, query)
  | some key =>
    if value = 0 then some (.ok, query) else queryAppendU64Value heap query (some key) value

/-- `dcc_rest_query_append_string`. -/
def queryAppendString (heap : Heap) (query : Buffer) (key value : Option Bytes) :
    Option (Status × Buffer) :=
  match key with
  | none | some [] => some (.invalidArg, query)
  | some key =>
    match value with
    | none | some [] => some (.ok, query)
    | some value =>
      match escapePathSegment heap (some value) with
      | none => none
      | some (.error status) => some (status, query)
      | some (.ok encoded) => appendSteps heap query (pairSteps query key (Json.cString encoded))

/-- `dcc_rest_query_append_bool`. -/
def queryAppendBool (heap : Heap) (query : Buffer) (key : Option Bytes) (value : UInt8) :
    Option (Status × Buffer) :=
  queryAppendString heap query key
    (some (if value ≠ 0 then asciiText "true" else asciiText "false"))

/-- `dcc_rest_query_append_bool_true`. -/
def queryAppendBoolTrue (heap : Heap) (query : Buffer) (key : Option Bytes) (value : UInt8) :
    Option (Status × Buffer) :=
  match key with
  | none | some [] => some (.invalidArg, query)
  | some key => if value = 0 then some (.ok, query) else queryAppendBool heap query (some key) 1

/-- A call of one of the functions. -/
inductive QueryCall
  | u64Value (key : Bytes) (value : UInt64)
  | u64 (key : Bytes) (value : UInt64)
  | string (key : Bytes) (value : Option Bytes)
  | bool (key : Bytes) (value : UInt8)
  | boolTrue (key : Bytes) (value : UInt8)

/-- The key that a call appends. -/
def QueryCall.key : QueryCall → Bytes
  | .u64Value key _ | .u64 key _ | .string key _ | .bool key _ | .boolTrue key _ => key

/-- What a call does. -/
def QueryCall.run (heap : Heap) (query : Buffer) : QueryCall → Option (Status × Buffer)
  | .u64Value key value => queryAppendU64Value heap query (some key) value
  | .u64 key value => queryAppendU64 heap query (some key) value
  | .string key value => queryAppendString heap query (some key) value
  | .bool key value => queryAppendBool heap query (some key) value
  | .boolTrue key value => queryAppendBoolTrue heap query (some key) value

/-- Calls one after the other, up to the first that fails. -/
def runCalls (heap : Heap) : Buffer → List QueryCall → Option (Status × Buffer)
  | query, [] => some (.ok, query)
  | query, call :: calls =>
    match call.run heap query with
    | none => none
    | some (.ok, query) => runCalls heap query calls
    | some (status, query) => some (status, query)

/-- The pair of a call, where it is not empty. -/
def QueryCall.pair : QueryCall → Option (Bytes × Bytes)
  | .u64Value key value => some (key, decimalText value.toNat)
  | .u64 key value => if value = 0 then none else some (key, decimalText value.toNat)
  | .string key value =>
    match value with
    | none | some [] => none
    | some value => some (key, value)
  | .bool key value => some (key, if value ≠ 0 then asciiText "true" else asciiText "false")
  | .boolTrue key value => if value = 0 then none else some (key, asciiText "true")

/-! ## How a server reads them -/

/-- Percent-decoding. -/
def percentDecode : Bytes → Bytes
  | [] => []
  | [a] => [a]
  | [a, b] => [a, b]
  | a :: b :: c :: rest =>
    match a == 0x25, hexValue b, hexValue c with
    | true, some hi, some lo => UInt8.ofNat (hi * 16 + lo) :: percentDecode rest
    | _, _, _ => a :: percentDecode (b :: c :: rest)

/-- A query that is split at `&`, and each part at its first `=`. -/
def parseQuery (text : Bytes) : List (Bytes × Bytes) :=
  if text = [] then []
  else
    (text.splitOn 0x26).map fun part =>
      let key := part.takeWhile (· ≠ 0x3d)
      (percentDecode key, percentDecode (part.drop (key.length + 1)))

/-- A segment that stands for a value: it decodes to it, holds no `/`, `?` or `#`, and is neither
`.` nor `..`. -/
structure SegmentInert (value text : Bytes) : Prop where
  decodes : percentDecode text = value
  whole : ∀ c ∈ text, c ≠ 0x2f ∧ c ≠ 0x3f ∧ c ≠ 0x23
  named : text ≠ [0x2e] ∧ text ≠ [0x2e, 0x2e]

/-- A name that is a key as it is. -/
structure PlainName (key : Bytes) : Prop where
  ne_nil : key ≠ []
  chars : ∀ c ∈ key, c ≠ 0x26 ∧ c ≠ 0x3d ∧ c ≠ 0x25

/-! ## One segment -/

section

variable {heap : Heap} {value text key rest : Bytes} {c : UInt8}

theorem mem_escaped (hc : c ∈ value.flatMap escapeSegmentByte) :
    pathUnreserved c = true ∨ c = 0x25 := by
  obtain ⟨b, -, hc⟩ := List.mem_flatMap.mp hc
  have hall : ∀ k < 256, (escapeSegmentByte (UInt8.ofNat k)).all
      (fun c => pathUnreserved c || c == 0x25) = true := by decide +kernel
  have hbyte := hall b.toNat b.toNat_lt
  rw [UInt8.ofNat_toNat] at hbyte
  simpa using List.all_eq_true.mp hbyte c hc

theorem plain_of_mem_escaped (hc : c ∈ value.flatMap escapeSegmentByte) :
    c ≠ 0x2f ∧ c ≠ 0x3f ∧ c ≠ 0x23 ∧ c ≠ 0x26 ∧ c ≠ 0x3d ∧ c ≠ 0 := by
  rcases mem_escaped hc with h | rfl
  · refine ⟨?_, ?_, ?_, ?_, ?_, ?_⟩ <;> exact fun hc => absurd (hc ▸ h) (by decide)
  · decide

theorem percentDecode_cons (hc : c ≠ 0x25) :
    percentDecode (c :: rest) = c :: percentDecode rest := by
  match rest with
  | [] => rfl
  | [_] => rfl
  | _ :: _ :: _ => rw [percentDecode, beq_eq_false_iff_ne.mpr hc]

theorem percentDecode_plain (h : ∀ c ∈ text, c ≠ 0x25) : percentDecode text = text := by
  induction text with
  | nil => rfl
  | cons c rest ih =>
    obtain ⟨hc, hrest⟩ := List.forall_mem_cons.mp h
    rw [percentDecode_cons hc, ih hrest]

theorem percentDecode_byte (c : UInt8) (rest : Bytes) :
    percentDecode (escapeSegmentByte c ++ rest) = c :: percentDecode rest := by
  by_cases hc : pathUnreserved c = true
  · rw [escapeSegmentByte, if_pos hc]
    exact percentDecode_cons fun heq => absurd (heq ▸ hc) (by decide)
  · have hall : ∀ k < 256, hexValue (hexDigit (UInt8.ofNat k >>> 4)) = some (k / 16) ∧
        hexValue (hexDigit (UInt8.ofNat k &&& 0x0f)) = some (k % 16) := by decide +kernel
    obtain ⟨hhi, hlo⟩ := hall c.toNat c.toNat_lt
    rw [UInt8.ofNat_toNat] at hhi hlo
    have hnumber : c.toNat / 16 * 16 + c.toNat % 16 = c.toNat := by omega
    rw [escapeSegmentByte, if_neg hc]
    simp only [List.cons_append, List.nil_append, percentDecode, hhi, hlo, hnumber,
      UInt8.ofNat_toNat, BEq.rfl]

theorem percentDecode_escape (value : Bytes) :
    percentDecode (value.flatMap escapeSegmentByte) = value := by
  induction value with
  | nil => rfl
  | cons c rest ih => rw [List.flatMap_cons, percentDecode_byte, ih]

theorem encodedLen_eq (value : Bytes) (len : Nat) :
    encodedLen value len = .ok (len + (value.flatMap escapeSegmentByte).length) ∨
      (encodedLen value len = .error .nomem ∧
        wordMax ≤ len + (value.flatMap escapeSegmentByte).length) := by
  induction value generalizing len with
  | nil =>
    rw [encodedLen]
    split
    · next hmax => exact .inr ⟨rfl, Nat.le_of_eq hmax.symm⟩
    · exact .inl rfl
  | cons c rest ih =>
    have hadd : (if pathUnreserved c then 1 else 3) = (escapeSegmentByte c).length := by
      rw [escapeSegmentByte]
      split <;> rfl
    simp only [encodedLen, hadd, List.flatMap_cons, List.length_append, ← Nat.add_assoc]
    split
    · exact .inr ⟨rfl, by omega⟩
    · exact ih _

/-- **A value that is not empty** is written into its block, which it fills, or memory ran out. -/
theorem escapePathSegment_spec (hvalue : value ≠ []) :
    escapePathSegment heap (some value) = some (.ok (value.flatMap escapeSegmentByte ++ [0])) ∨
      (escapePathSegment heap (some value) = some (.error .nomem) ∧
        ((∀ size, heap.grants size = true) →
          wordMax ≤ (value.flatMap escapeSegmentByte).length)) := by
  rw [escapePathSegment.eq_3 _ _ hvalue]
  rcases encodedLen_eq value 0 with hlen | ⟨hlen, hlong⟩
  · rw [hlen, Nat.zero_add]
    generalize value.flatMap escapeSegmentByte = text
    have hblock : ((List.range (text.length + 1)).map heap.stale).length = text.length + 1 := by
      rw [List.length_map, List.length_range]
    have htext : (text ++ [0]).length = text.length + 1 := List.length_append
    simp only
    split
    · rw [copyInto_eq (by omega), List.drop_of_length_le (by omega), List.append_nil]
      exact .inl rfl
    · next hrefused => exact .inr ⟨rfl, fun hall => absurd (hall _) hrefused⟩
  · rw [hlen]
    exact .inr ⟨rfl, fun _ => by rwa [Nat.zero_add] at hlong⟩

theorem dots_iff : (value.flatMap escapeSegmentByte = [0x2e] ↔ value = [0x2e]) ∧
    (value.flatMap escapeSegmentByte = [0x2e, 0x2e] ↔ value = [0x2e, 0x2e]) := by
  have hback : ∀ dots : Bytes, percentDecode dots = dots → dots.flatMap escapeSegmentByte = dots →
      (value.flatMap escapeSegmentByte = dots ↔ value = dots) := by
    intro dots hdecode hsame
    refine ⟨fun h => ?_, fun h => by rw [h, hsame]⟩
    rw [← percentDecode_escape value, h, hdecode]
  exact ⟨hback _ rfl rfl, hback _ rfl rfl⟩

end

/-! ## A query -/

/-- What a parameter adds to a query. -/
def appendPair (text : Bytes) (pair : Bytes × Bytes) : Bytes :=
  (if text = [] then [] else text ++ [0x26]) ++ (pair.1 ++ 0x3d :: pair.2.flatMap escapeSegmentByte)

/-- The query of a sequence of pairs. -/
def queryText (pairs : List (Bytes × Bytes)) : Bytes := pairs.foldl appendPair []

section

variable {heap : Heap} {query : Buffer} {text key : Bytes} {pair : Bytes × Bytes}
  {pairs : List (Bytes × Bytes)}

theorem queryText_concat (pairs : List (Bytes × Bytes)) (pair : Bytes × Bytes) :
    queryText (pairs ++ [pair]) = appendPair (queryText pairs) pair := by
  rw [queryText, List.foldl_append]
  rfl

theorem parse_part (hkey : PlainName key) (value : Bytes) :
    0x26 ∉ key ++ 0x3d :: value.flatMap escapeSegmentByte ∧
      (let part := key ++ 0x3d :: value.flatMap escapeSegmentByte
        let name := part.takeWhile (· ≠ 0x3d)
        (percentDecode name, percentDecode (part.drop (name.length + 1)))) = (key, value) := by
  have hname : (key ++ 0x3d :: value.flatMap escapeSegmentByte).takeWhile (· ≠ 0x3d) = key := by
    rw [List.takeWhile_append_of_pos fun c hc => decide_eq_true (hkey.chars c hc).2.1]
    simp
  constructor
  · intro hmem
    rcases List.mem_append.mp hmem with hc | hc
    · exact (hkey.chars _ hc).1 rfl
    · rcases List.mem_cons.mp hc with hc | hc
      · exact absurd hc (by decide)
      · exact (plain_of_mem_escaped hc).2.2.2.1 rfl
  · simp only
    rw [hname, List.drop_length_add_append, List.drop_one, List.tail_cons, percentDecode_escape,
      percentDecode_plain fun c hc => (hkey.chars c hc).2.2]

theorem parseQuery_appendPair (hkey : PlainName pair.1) (text : Bytes) :
    parseQuery (appendPair text pair) = parseQuery text ++ [pair] := by
  obtain ⟨hsplit, hread⟩ := parse_part hkey pair.2
  have hne : pair.1 ++ 0x3d :: pair.2.flatMap escapeSegmentByte ≠ [] := by simp
  simp only at hread
  rw [appendPair]
  generalize pair.1 ++ 0x3d :: pair.2.flatMap escapeSegmentByte = part at hsplit hread hne
  by_cases htext : text = []
  · rw [if_pos htext, List.nil_append, htext, parseQuery, parseQuery, if_neg hne, if_pos rfl,
      List.splitOn_eq_singleton hsplit, List.map_singleton, hread, List.nil_append]
  · rw [if_neg htext, List.append_assoc, List.singleton_append, parseQuery, parseQuery,
      if_neg htext, if_neg (by simp), List.splitOn_append_cons_self,
      List.splitOn_eq_singleton hsplit, List.map_append, List.map_singleton, hread]

/-- **A query of pairs is read as the pairs.** -/
theorem parseQuery_queryText (h : ∀ pair ∈ pairs, PlainName pair.1) :
    parseQuery (queryText pairs) = pairs := by
  induction pairs using List.reverseRecOn with
  | nil => rfl
  | append_singleton pairs pair ih =>
    rw [List.forall_mem_append] at h
    rw [queryText_concat, parseQuery_appendPair (h.2 pair List.mem_cons_self), ih h.1]

/-- The query after a call. -/
def Appended (heap : Heap) (result : Option (Status × Buffer)) (text : Bytes) : Prop :=
  (∃ query, result = some (.ok, query) ∧ query.Holds text) ∨
    ((∃ query, result = some (.nomem, query)) ∧
      ((∀ size, heap.grants size = true) → wordMax ≤ text.length))

theorem pairSteps_spec (h : query.Holds text) (key value : Bytes) :
    Appended heap (appendSteps heap query
      (pairSteps query key (value.flatMap escapeSegmentByte))) (appendPair text (key, value)) := by
  have hpieces : ∃ pieces : List Bytes,
      pairSteps query key (value.flatMap escapeSegmentByte) = pieces.map .ok ∧
        text ++ pieces.flatten = appendPair text (key, value) := by
    by_cases htext : text = []
    · have hlen : query.len = 0 := by rw [h.len, htext, List.length_nil]
      exact ⟨[key, [0x3d], value.flatMap escapeSegmentByte], by simp [pairSteps, hlen],
        by simp [appendPair, htext]⟩
    · have hlen : query.len ≠ 0 := by rw [h.len]; exact mt List.length_eq_zero_iff.mp htext
      exact ⟨[[0x26], key, [0x3d], value.flatMap escapeSegmentByte], by simp [pairSteps, hlen],
        by simp [appendPair, htext]⟩
  obtain ⟨pieces, hsteps, hflat⟩ := hpieces
  rw [hsteps, ← hflat]
  exact appendSteps_spec h pieces

theorem escape_decimalText (n : Nat) :
    (decimalText n).flatMap escapeSegmentByte = decimalText n := by
  have hbyte : ∀ c ∈ decimalText n, escapeSegmentByte c = [c] := by
    intro c hc
    obtain ⟨hlow, hhigh⟩ := digit_of_mem hc
    have hdigit : 0x30 ≤ c ∧ c ≤ 0x39 :=
      ⟨UInt8.le_iff_toNat_le.mpr hlow, UInt8.le_iff_toNat_le.mpr hhigh⟩
    rw [escapeSegmentByte, if_pos (by simp [pathUnreserved, hdigit])]
  rw [List.flatMap_congr hbyte, List.flatMap_singleton']

theorem queryAppendString_spec {value : Bytes} (h : query.Holds text) (hkey : key ≠ [])
    (hvalue : value ≠ []) :
    Appended heap (queryAppendString heap query (some key) (some value))
      (appendPair text (key, value)) := by
  obtain ⟨c, rest, rfl⟩ := List.exists_cons_of_ne_nil hkey
  obtain ⟨d, tail, rfl⟩ := List.exists_cons_of_ne_nil hvalue
  simp only [queryAppendString]
  rcases @escapePathSegment_spec heap _ hvalue with hescape | ⟨hescape, hwhy⟩
  · rw [hescape]
    have hplain : ∀ c ∈ (d :: tail).flatMap escapeSegmentByte, decide (c ≠ 0) = true :=
      fun c hc => decide_eq_true (plain_of_mem_escaped hc).2.2.2.2.2
    have hcut : Json.cString ((d :: tail).flatMap escapeSegmentByte ++ [0]) =
        (d :: tail).flatMap escapeSegmentByte := by
      rw [Json.cString, List.takeWhile_append_of_pos hplain]
      simp
    simp only [hcut]
    exact pairSteps_spec h _ _
  · rw [hescape]
    refine .inr ⟨⟨query, rfl⟩, fun hall => Nat.le_trans (hwhy hall) ?_⟩
    simp only [appendPair, List.length_append, List.length_cons]
    omega

theorem run_spec (h : query.Holds (queryText pairs)) {call : QueryCall}
    (hkey : PlainName call.key) :
    Appended heap (call.run heap query) (queryText (pairs ++ call.pair.toList)) := by
  have hskip : Appended heap (some (.ok, query)) (queryText (pairs ++ (none : Option _).toList)) := by
    rw [Option.toList_none, List.append_nil]
    exact .inl ⟨query, rfl, h⟩
  have hstring : ∀ (key : Bytes) (value : Bytes), key ≠ [] → value ≠ [] →
      Appended heap (queryAppendString heap query (some key) (some value))
        (queryText (pairs ++ (some (key, value)).toList)) := by
    intro key value hkey hvalue
    rw [Option.toList_some, queryText_concat]
    exact queryAppendString_spec h hkey hvalue
  have hvalue : ∀ (key : Bytes) (value : UInt64), key ≠ [] →
      Appended heap (queryAppendU64Value heap query (some key) value)
        (queryText (pairs ++ (some (key, decimalText value.toNat)).toList)) := by
    intro key value hkey
    obtain ⟨c, rest, rfl⟩ := List.exists_cons_of_ne_nil hkey
    have hpair := @pairSteps_spec heap _ _ h (c :: rest) (decimalText value.toNat)
    rw [escape_decimalText] at hpair
    rw [Option.toList_some, queryText_concat]
    exact hpair
  obtain ⟨c, rest, hcons⟩ := List.exists_cons_of_ne_nil hkey.ne_nil
  cases call with
  | u64Value key value => exact hvalue key value hkey.ne_nil
  | u64 key value =>
    obtain rfl : key = c :: rest := hcons
    simp only [QueryCall.run, queryAppendU64, QueryCall.pair]
    split
    · exact hskip
    · exact hvalue _ value hkey.ne_nil
  | string key value =>
    obtain rfl : key = c :: rest := hcons
    match value with
    | none | some [] => exact hskip
    | some (d :: value) => exact hstring _ _ hkey.ne_nil (List.cons_ne_nil _ _)
  | bool key value =>
    refine hstring key _ hkey.ne_nil ?_
    split <;> decide
  | boolTrue key value =>
    obtain rfl : key = c :: rest := hcons
    simp only [QueryCall.run, queryAppendBoolTrue, QueryCall.pair]
    split
    · exact hskip
    · exact hstring _ (asciiText "true") hkey.ne_nil (by decide)

theorem length_le_queryText (pairs more : List (Bytes × Bytes)) :
    (queryText pairs).length ≤ (queryText (pairs ++ more)).length := by
  induction more using List.reverseRecOn with
  | nil => rw [List.append_nil]
  | append_singleton more pair ih =>
    rw [← List.append_assoc, queryText_concat]
    refine Nat.le_trans ih ?_
    rw [appendPair]
    split
    · next hnil => simp [hnil]
    · simp only [List.length_append]
      omega

theorem pair_key {call : QueryCall} (h : call.pair = some pair) : pair.1 = call.key := by
  cases call with
  | u64Value | bool =>
    cases h
    rfl
  | u64 | string | boolTrue =>
    simp only [QueryCall.pair] at h
    split at h <;> cases h
    rfl

theorem runCalls_spec (h : query.Holds (queryText pairs)) (calls : List QueryCall)
    (hkeys : ∀ call ∈ calls, PlainName call.key) :
    Appended heap (runCalls heap query calls)
      (queryText (pairs ++ calls.filterMap QueryCall.pair)) := by
  induction calls generalizing query pairs with
  | nil =>
    rw [List.filterMap_nil, List.append_nil]
    exact .inl ⟨query, rfl, h⟩
  | cons call calls ih =>
    obtain ⟨hkey, hkeys⟩ := List.forall_mem_cons.mp hkeys
    have hpairs : pairs ++ (call :: calls).filterMap QueryCall.pair =
        pairs ++ call.pair.toList ++ calls.filterMap QueryCall.pair := by
      cases hpair : call.pair <;> simp [hpair]
    rw [runCalls, hpairs]
    rcases run_spec h hkey with ⟨query', hrun, hholds⟩ | ⟨⟨query', hrun⟩, hwhy⟩
    · rw [hrun]
      exact ih hholds hkeys
    · rw [hrun]
      exact .inr ⟨⟨query', rfl⟩, fun hall =>
        Nat.le_trans (hwhy hall) (length_le_queryText _ _)⟩

/-- **What an escaped text stands for.**  The text of a value is written, or memory ran out; it is
inert unless the value is `.` or `..`.  A query of calls reads back as the pairs that are not empty,
in order. -/
theorem escaped_text_inert (heap : Heap) :
    (∀ value : Bytes, value ≠ [] →
      (∃ text, escapePathSegment heap (some value) = some (.ok (text ++ [0])) ∧
          (SegmentInert value text ↔ value ≠ [0x2e] ∧ value ≠ [0x2e, 0x2e])) ∨
        (escapePathSegment heap (some value) = some (.error .nomem) ∧
          ((∀ size, heap.grants size = true) → wordMax ≤ (value.flatMap escapeSegmentByte).length))) ∧
      ∀ calls : List QueryCall, (∀ call ∈ calls, PlainName call.key) →
        ∃ text, Appended heap (runCalls heap Buffer.empty calls) text ∧
          parseQuery text = calls.filterMap QueryCall.pair := by
  refine ⟨fun value hvalue => ?_, fun calls hkeys => ?_⟩
  · rcases @escapePathSegment_spec heap value hvalue with hescape | ⟨hescape, hwhy⟩
    · refine .inl ⟨_, hescape, fun h => ?_, fun h => ?_⟩
      · exact ⟨mt dots_iff.1.mpr h.named.1, mt dots_iff.2.mpr h.named.2⟩
      · refine ⟨percentDecode_escape value, fun c hc => ?_, mt dots_iff.1.mp h.1,
          mt dots_iff.2.mp h.2⟩
        obtain ⟨hslash, hquestion, hhash, -⟩ := plain_of_mem_escaped hc
        exact ⟨hslash, hquestion, hhash⟩
    · exact .inr ⟨hescape, hwhy⟩
  · have hspec := @runCalls_spec heap _ [] holds_empty calls hkeys
    rw [List.nil_append] at hspec
    refine ⟨_, hspec, parseQuery_queryText fun pair hpair => ?_⟩
    obtain ⟨call, hcall, hsome⟩ := List.mem_filterMap.mp hpair
    rw [pair_key hsome]
    exact hkeys call hcall

/-- A heap with memory for every text. -/
def wideHeap : Heap := ⟨fun _ => true, fun _ => 0⟩

/-- `a/b` as a segment, and a query of three calls of which one appends nothing. -/
theorem escaped_text_inert_slash :
    (∃ text, escapePathSegment wideHeap (some (asciiText "a/b")) = some (.ok (text ++ [0])) ∧
      SegmentInert (asciiText "a/b") text) ∧
    ∃ text, Appended wideHeap (runCalls wideHeap Buffer.empty
        [.string (asciiText "content") (some (asciiText "a&b=c")), .u64 (asciiText "limit") 0,
          .boolTrue (asciiText "nsfw") 1]) text ∧
      parseQuery text =
        [(asciiText "content", asciiText "a&b=c"), (asciiText "nsfw", asciiText "true")] := by
  obtain ⟨hsegment, hquery⟩ := escaped_text_inert wideHeap
  constructor
  · rcases hsegment (asciiText "a/b") (by decide) with ⟨text, hescape, hinert⟩ | ⟨-, hwhy⟩
    · exact ⟨text, hescape, hinert.mpr (by decide)⟩
    · exact absurd (hwhy fun _ => rfl) (by decide)
  · refine hquery _ ?_
    intro call hcall
    simp only [List.mem_cons, List.not_mem_nil, or_false] at hcall
    rcases hcall with rfl | rfl | rfl <;> exact ⟨by decide, by simp [QueryCall.key, asciiText]⟩

/-- `..` comes out as it is. -/
theorem dots_not_inert :
    ¬ ∀ value : Bytes, value ≠ [] → ∀ text,
      escapePathSegment wideHeap (some value) = some (.ok (text ++ [0])) →
        SegmentInert value text := by
  intro h
  exact (h [0x2e, 0x2e] (by decide) [0x2e, 0x2e] (by decide)).named.2 rfl

end

end Dcc.Rest
