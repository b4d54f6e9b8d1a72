import Dcc.Replay.Scan

/-!
# What was recorded is played back

A line of the log is a JSON object, derived here from the derivation of its payload; so the
player parses it, and its scan finds the payload.  That a record is played back takes four
things: the payload has no line feed, its nesting fits the scan's stack, the line fits the
reader's limit, and the event is UTF-8.

* `playerNext_fits` — the line of such a record is read and parsed to the record;
* `playerNext_unfit` — what any other record leaves in the log is refused;
* `played_back_iff` — so a log is played back exactly when all its records are of that kind.
-/

namespace Dcc.Replay

open Json Json.Grammar Commands

/-! ## The event -/

theorem spells_replayEscape (c : Char) : Spells ((encode c).flatMap replayEscape) c := by
  refine spells_of_escape (fun b hb => ?_) (fun n hn => ?_) c
  · simp only [replayEscape, escapeByte, if_neg hb]
  · have hall : ∀ n < 0x20, replayEscape (UInt8.ofNat n) = escapeByte (UInt8.ofNat n) ∨
        replayEscape (UInt8.ofNat n) = [chBackslash, 0x75, 0x30, 0x30,
          hexDigitLower (UInt8.ofNat n >>> 4), hexDigitLower (UInt8.ofNat n &&& 0x0f)] := by decide
    have hbyte : (UInt8.ofNat n).toNat = n := toNat_ofNat_of_lt (by omega)
    have hlt : UInt8.ofNat n < 0x20 := by
      rw [UInt8.lt_iff_toNat_lt, hbyte]
      exact hn
    have hdigits := hexDigitLower_control hlt
    rw [hbyte] at hdigits
    exact (hall n hn).imp_right fun hsame => ⟨_, hsame, hdigits⟩

theorem chars_jsonEscape (cs : List Char) : Chars (jsonEscape (utf8 cs)) cs := by
  induction cs with
  | nil => exact Chars.nil
  | cons c cs ih =>
    rw [jsonEscape, utf8_cons, List.flatMap_append]
    exact Chars.cons (spells_replayEscape c) ih

/-- The decoder undoes the escapes, of any bytes. -/
theorem decode_jsonEscape (text : Bytes) :
    ∀ {fuel room : Nat}, (jsonEscape text).length ≤ fuel → (jsonEscape text).length + 1 ≤ room →
      decodeStringLoop fuel (jsonEscape text) room = some text := by
  induction text with
  | nil =>
    intro fuel room _ hroom
    rw [jsonEscape, List.flatMap_nil, decodeStringLoop, if_neg (by omega)]
  | cons c text ih =>
    intro fuel room hfuel hroom
    have hsplit : jsonEscape (c :: text) = replayEscape c ++ jsonEscape text := List.flatMap_cons
    rw [hsplit] at hfuel hroom ⊢
    rw [List.length_append] at hfuel hroom
    -- an escape of one letter
    have hshort : ∀ esc, isShortEscape esc = true → shortEscapeByte esc = c →
        replayEscape c = [chBackslash, esc] →
        decodeStringLoop fuel (replayEscape c ++ jsonEscape text) room = some (c :: text) := by
      intro esc hesc hbyte heq
      rw [heq] at hfuel hroom ⊢
      simp only [List.length_cons, List.length_nil] at hfuel hroom
      obtain ⟨fuel, rfl⟩ : ∃ k, fuel = k + 1 := ⟨fuel - 1, by omega⟩
      have hstep := decodeStringLoop_short hesc fuel room (jsonEscape text)
      rw [if_neg (by omega), ih (by omega) (by omega), hbyte] at hstep
      exact hstep
    by_cases hquote : c = chQuote
    · exact hshort chQuote (by decide) (by rw [hquote]; decide) (by rw [hquote]; decide)
    by_cases hback : c = chBackslash
    · exact hshort chBackslash (by decide) (by rw [hback]; decide) (by rw [hback]; decide)
    by_cases h8 : c = 0x08
    · exact hshort 0x62 (by decide) (by rw [h8]; decide) (by rw [h8]; decide)
    by_cases h12 : c = 0x0c
    · exact hshort 0x66 (by decide) (by rw [h12]; decide) (by rw [h12]; decide)
    by_cases h10 : c = 0x0a
    · exact hshort 0x6e (by decide) (by rw [h10]; decide) (by rw [h10]; decide)
    by_cases h13 : c = 0x0d
    · exact hshort 0x72 (by decide) (by rw [h13]; decide) (by rw [h13]; decide)
    by_cases h9 : c = 0x09
    · exact hshort 0x74 (by decide) (by rw [h9]; decide) (by rw [h9]; decide)
    by_cases hctl : c < 0x20
    · have heq : replayEscape c = [chBackslash, 0x75, 0x30, 0x30, hexDigitLower (c >>> 4),
          hexDigitLower (c &&& 0x0f)] := by
        simp only [replayEscape, if_neg hquote, if_neg hback, if_neg h8, if_neg h12, if_neg h10,
          if_neg h13, if_neg h9, if_pos hctl]
      rw [heq] at hfuel hroom ⊢
      simp only [List.length_cons, List.length_nil] at hfuel hroom
      obtain ⟨fuel, rfl⟩ : ∃ k, fuel = k + 1 := ⟨fuel - 1, by omega⟩
      have hn : c.toNat < 0x20 := UInt8.lt_iff_toNat_lt.mp hctl
      have hwrite : utf8Append room c.toNat = some [c] := by
        simp [utf8Append, show c.toNat ≤ 0x7f by omega, show ¬ room < 1 by omega]
      have hescape := decodeUnicodeEscape_one (hexDigitLower_control hctl) (by omega)
        (jsonEscape text)
      simp only [List.cons_append, List.nil_append] at hescape ⊢
      rw [decodeStringLoop_unicode, hescape, Option.bind_some, hwrite, Option.bind_some,
        List.length_singleton, ih (by omega) (by omega)]
      rfl
    · have heq : replayEscape c = [c] := by
        simp only [replayEscape, if_neg hquote, if_neg hback, if_neg h8, if_neg h12, if_neg h10,
          if_neg h13, if_neg h9, if_neg hctl]
      rw [heq] at hfuel hroom ⊢
      simp only [List.length_cons, List.length_nil] at hfuel hroom
      refine decode_append (by simpa using hback) (by simp; omega) (by simp; omega) ?_
      exact ih (by simp; omega) (by simp; omega)

theorem eq_utf8_of_chars {text : Bytes} {cs : List Char} (h : Chars (jsonEscape text) cs) :
    text = utf8 cs := by
  have hdecode := decode_complete h (Nat.le_refl _) (Nat.lt_succ_of_le (utf8_length_le h))
  rw [decode_jsonEscape text (Nat.le_refl _) (Nat.le_refl _)] at hdecode
  exact Option.some.inj hdecode

/-! ## The line of a record -/

/-- A text in quotes. -/
def quoted (raw : Bytes) : Bytes := chQuote :: (raw ++ [chQuote])

/-- The members of a line before the payload: key, spelling of the value, value. -/
def leadingMembers (record : Record) : List (Bytes × Bytes × Value) :=
  [(asciiText "kind", quoted (kindString record.kind), .string (kindString record.kind)),
    (asciiText "ts", Decimal.decimalText record.tsMs.toNat,
      .number (Decimal.decimalText record.tsMs.toNat))] ++
    match record.event with
    | some event => [(asciiText "event", quoted (jsonEscape event), .string event)]
    | none => []

/-- The text of a member. -/
def memberOf (m : Bytes × Bytes × Value) : Bytes := memberText m.1 m.2.1

theorem lineHead_eq (record : Record) :
    lineHead record = chLBrace ::
      ((leadingMembers record).flatMap (fun m => memberOf m ++ [chComma]) ++
        chQuote :: (asciiText "payload" ++ [chQuote, chColon])) := by
  have hkind : asciiText "\x7b\"kind\":\"" =
      chLBrace :: chQuote :: (asciiText "kind" ++ [chQuote, chColon, chQuote]) := by decide
  have hts : asciiText "\",\"ts\":" =
      chQuote :: chComma :: chQuote :: (asciiText "ts" ++ [chQuote, chColon]) := by decide
  have hevent : asciiText ",\"event\":\"" =
      chComma :: chQuote :: (asciiText "event" ++ [chQuote, chColon, chQuote]) := by decide
  have hpayload : asciiText ",\"payload\":" =
      chComma :: chQuote :: (asciiText "payload" ++ [chQuote, chColon]) := by decide
  cases hrecord : record.event with
  | none =>
    simp [lineHead, leadingMembers, memberOf, memberText, quoted, hrecord, hkind, hts, hpayload]
  | some event =>
    simp [lineHead, leadingMembers, memberOf, memberText, quoted, hrecord, hkind, hts, hevent,
      hpayload]

/-- The event of the record is UTF-8. -/
def TextEvent (record : Record) : Prop := ∀ event, record.event = some event → ∃ cs, event = utf8 cs

theorem plainKey_kindString (kind : Kind) : Piece.PlainKey (kindString kind) := by
  refine plainKey_of_asciiKey ?_
  cases kind <;> decide

theorem derives_leading {record : Record} (h : TextEvent record) :
    ∀ m ∈ leadingMembers record, Derives (.value m.2.2) m.2.1 := by
  have hkind : Derives (.value (.string (kindString record.kind)))
      (quoted (kindString record.kind)) := by
    obtain ⟨⟨cs, htext, -⟩, hescape⟩ := plainKey_kindString record.kind
    have hchars := chars_escape cs
    rw [← htext, hescape] at hchars
    have hderives := Derives.string hchars
    rwa [← htext] at hderives
  have hts := Derives.number (number_decimalText record.tsMs.toNat)
  intro m hm
  rw [leadingMembers, List.mem_append] at hm
  rcases hm with hm | hm
  · simp only [List.mem_cons, List.not_mem_nil, or_false] at hm
    rcases hm with rfl | rfl
    · exact hkind
    · exact hts
  · cases hevent : record.event with
    | none => simp [hevent] at hm
    | some event =>
      rw [hevent] at hm
      rw [List.mem_singleton.mp hm]
      obtain ⟨cs, rfl⟩ := h event hevent
      exact Derives.string (chars_jsonEscape cs)

variable {record : Record} {m : Bytes × Bytes × Value}

theorem key_leading (hm : m ∈ leadingMembers record) :
    m.1 ∈ [asciiText "kind", asciiText "ts", asciiText "event"] := by
  cases hevent : record.event with
  | none =>
    simp only [leadingMembers, hevent, List.mem_append, List.mem_cons, List.not_mem_nil,
      or_false] at hm
    rcases hm with rfl | rfl <;> simp
  | some event =>
    simp only [leadingMembers, hevent, List.mem_append, List.mem_cons, List.not_mem_nil,
      or_false] at hm
    rcases hm with (rfl | rfl) | rfl <;> simp

theorem plainKey_leading (hm : m ∈ leadingMembers record) : Piece.PlainKey m.1 := by
  have hkeys : [asciiText "kind", asciiText "ts", asciiText "event"].all asciiKey = true := by
    decide
  exact plainKey_of_asciiKey (List.all_eq_true.mp hkeys _ (key_leading hm))

/-- The members of the tree of a line. -/
def lineEntries (record : Record) (v : Value) : List (Bytes × Value) :=
  (leadingMembers record).map (fun m => (m.1, m.2.2)) ++ [(asciiText "payload", v)]

theorem joined_append_last (texts : List Bytes) (last : Bytes) :
    joined (texts ++ [last]) = texts.flatMap (fun t => t ++ [chComma]) ++ last := by
  induction texts with
  | nil => simp [joined]
  | cons t texts ih =>
    cases texts with
    | nil => simp [joined]
    | cons u texts =>
      rw [List.cons_append, List.cons_append, joined, ← List.cons_append, ih]
      simp

/-- **The line of a record is JSON** when its payload is and its event is UTF-8. -/
theorem text_line (hevent : TextEvent record) {v : Value}
    (hv : Text v record.payload) : Text (.object (lineEntries record v)) (lineText record) := by
  let members := leadingMembers record ++ [(asciiText "payload", record.payload, v)]
  have hpayload : Piece.PlainKey (asciiText "payload") := plainKey_of_asciiKey (by decide)
  have hmember : ∀ m ∈ members, Derives (.member m.1 m.2.2) (memberOf m) := by
    intro m hm
    rcases List.mem_append.mp hm with hm | hm
    · exact Piece.derives_plainKey (plainKey_leading hm)
        (item_of_derives (derives_leading hevent m hm))
    · rw [List.mem_singleton.mp hm]
      exact Piece.derives_plainKey hpayload hv
  have hderives := derives_object (fun m => (m.1, m.2.2)) memberOf hmember
  have hitem := Derives.item ws_nil hderives (b := [chNewline]) (by
    intro c hc
    rw [List.mem_singleton.mp hc]
    decide)
  have htext : [] ++ (chLBrace :: (joined (members.map memberOf) ++ [chRBrace]) ++ [chNewline]) =
      lineText record := by
    rw [lineText, lineHead_eq, List.map_append, List.map_singleton, joined_append_last]
    simp [memberOf, memberText, List.flatMap_map]
  have hentries : members.map (fun m => (m.1, m.2.2)) = lineEntries record v := by
    rw [List.map_append, lineEntries, List.map_singleton]
  rw [htext, hentries] at hitem
  exact hitem

/-! ## The scan for the payload -/

theorem passes_plainKey {key : Bytes} (h : Piece.PlainKey key) : Passes key := by
  obtain ⟨⟨cs, htext, -⟩, hescape⟩ := h
  have hchars := chars_escape cs
  rw [← htext, hescape] at hchars
  exact passes_chars hchars

theorem payloadSpanFrom_key {key : Bytes} (hkey : Passes key) (fuel : Nat) (rest : Bytes) :
    payloadSpanFrom (fuel + 1) (memberText key rest) =
      (skipValue (skipWs rest)).bind fun valueEnd =>
        if key = asciiText "payload" then some (skipWs rest, valueEnd)
        else
          match skipWs valueEnd with
          | [] => none
          | c :: p => if c ≠ chComma then none else payloadSpanFrom fuel p := by
  have hskip : skipWs (memberText key rest) = memberText key rest := skipWs_cons (by decide) _
  have hstring : skipString (memberText key rest) = some (chColon :: rest) := by
    rw [memberText, skipString, if_pos rfl]
    exact skipStringBody_close hkey _
  have htake : ((memberText key rest).drop 1).take
      ((memberText key rest).length - (chColon :: rest).length - 2) = key := by
    have hlen : (memberText key rest).length - (chColon :: rest).length - 2 = key.length := by
      simp only [memberText, List.length_cons, List.length_append]
      omega
    rw [hlen, memberText, List.drop_succ_cons, List.drop_zero, List.take_left]
  have hcolon : skipWs (chColon :: rest) = chColon :: rest := skipWs_cons (by decide) _
  simp only [payloadSpanFrom, hskip, hstring, htake, hcolon, ne_eq, not_true_eq_false, if_false,
    bind, Option.bind_some] <;> rfl

theorem skipValue_leading (hm : m ∈ leadingMembers record) (rest : Bytes) :
    skipValue (skipWs (m.2.1 ++ chComma :: rest)) = some (chComma :: rest) := by
  have hquoted : ∀ {raw : Bytes}, Passes raw →
      skipValue (skipWs (quoted raw ++ chComma :: rest)) = some (chComma :: rest) := by
    intro raw hraw
    have htext : quoted raw ++ chComma :: rest = chQuote :: (raw ++ chQuote :: chComma :: rest) := by
      simp [quoted]
    rw [htext, skipWs_cons (by decide)]
    exact skipValue_string hraw _
  rw [leadingMembers, List.mem_append] at hm
  rcases hm with hm | hm
  · simp only [List.mem_cons, List.not_mem_nil, or_false] at hm
    rcases hm with rfl | rfl
    · exact hquoted (passes_plainKey (plainKey_kindString record.kind))
    · have hstart := (Derives.number (number_decimalText record.tsMs.toNat)).noneNext_ws
        (chComma :: rest)
      rw [skipWs, hstart.dropWhile]
      exact skipValue_decimal _ rest
  · cases hevent : record.event with
    | none => simp [hevent] at hm
    | some event =>
      rw [hevent] at hm
      rw [List.mem_singleton.mp hm]
      exact hquoted (passes_jsonEscape event)

theorem payloadSpanFrom_leading {members : List (Bytes × Bytes × Value)}
    (hkey : ∀ m ∈ members, Passes m.1 ∧ m.1 ≠ asciiText "payload")
    (hvalue : ∀ m ∈ members, ∀ rest,
      skipValue (skipWs (m.2.1 ++ chComma :: rest)) = some (chComma :: rest))
    (fuel : Nat) (rest : Bytes) :
    payloadSpanFrom (fuel + members.length)
      (members.flatMap (fun m => memberOf m ++ [chComma]) ++ rest) = payloadSpanFrom fuel rest := by
  induction members with
  | nil => rfl
  | cons m members ih =>
    obtain ⟨hpasses, hne⟩ := hkey m List.mem_cons_self
    have htext : (m :: members).flatMap (fun m => memberOf m ++ [chComma]) ++ rest =
        memberText m.1 (m.2.1 ++ chComma ::
          (members.flatMap (fun m => memberOf m ++ [chComma]) ++ rest)) := by
      simp [memberOf, memberText]
    have hcomma : ∀ p, skipWs (chComma :: p) = chComma :: p := fun p => skipWs_cons (by decide) p
    rw [htext, List.length_cons, ← Nat.add_assoc, payloadSpanFrom_key hpasses,
      hvalue m List.mem_cons_self, Option.bind_some, if_neg hne]
    simp only [hcomma, ne_eq, not_true_eq_false, if_false]
    exact ih (fun k hk => hkey k (List.mem_cons_of_mem m hk))
      (fun k hk => hvalue k (List.mem_cons_of_mem m hk))

/-- **The scan finds the payload** of a line exactly when its nesting fits the stack. -/
theorem payloadSpan_line {a t b : Bytes} {v : Value} (ha : Ws a)
    (ht : Derives (.value v) t) (hv : isContainer v = true)
    (hpayload : record.payload = a ++ (t ++ b)) :
    payloadSpan (lineText record) = if depth v ≤ stackSize then
        some (t ++ (b ++ [chRBrace, chNewline]), b ++ [chRBrace, chNewline])
      else none := by
  let rest := memberText (asciiText "payload") (record.payload ++ [chRBrace, chNewline])
  have htext : lineText record = chLBrace ::
      ((leadingMembers record).flatMap (fun m => memberOf m ++ [chComma]) ++ rest) := by
    simp [lineText, lineHead_eq, rest, memberText]
  have hfuel : ∃ fuel, (lineText record).length = fuel + 1 + (leadingMembers record).length := by
    refine ⟨(lineText record).length - 1 - (leadingMembers record).length, ?_⟩
    have hcount : ∀ members : List (Bytes × Bytes × Value),
        members.length ≤ (members.flatMap fun m => memberOf m ++ [chComma]).length := by
      intro members
      induction members with
      | nil => simp
      | cons m members ih =>
        rw [List.flatMap_cons, List.length_append, List.length_cons, List.length_append,
          List.length_singleton]
        omega
    have hle := hcount (leadingMembers record)
    rw [htext, List.length_cons, List.length_append]
    simp only [rest, memberText, List.length_cons]
    omega
  obtain ⟨fuel, hfuel⟩ := hfuel
  have hskip : skipWs (lineText record) = lineText record := by
    rw [htext]
    exact skipWs_cons (by decide) _
  have hkeys : ∀ m ∈ leadingMembers record, Passes m.1 ∧ m.1 ≠ asciiText "payload" := by
    intro m hm
    refine ⟨passes_plainKey (plainKey_leading hm), fun heq => ?_⟩
    have hmem := key_leading hm
    rw [heq] at hmem
    exact absurd hmem (by decide)
  have hvalue : skipWs (record.payload ++ [chRBrace, chNewline]) =
      t ++ (b ++ [chRBrace, chNewline]) := by
    rw [hpayload, List.append_assoc, skipWs_append ha, List.append_assoc, skipWs,
      (ht.noneNext_ws _).dropWhile]
  have hkey : Passes (asciiText "payload") := passes_plainKey (plainKey_of_asciiKey (by decide))
  have hspan : payloadSpan (lineText record) = payloadSpanFrom (lineText record).length
      ((leadingMembers record).flatMap (fun m => memberOf m ++ [chComma]) ++ rest) := by
    rw [payloadSpan, hskip, htext]
    simp
  rw [hspan, hfuel, payloadSpanFrom_leading hkeys (fun m hm => skipValue_leading hm),
    payloadSpanFrom_key hkey, hvalue, skipValue_container ht hv]
  by_cases hdepth : depth v ≤ stackSize
  · rw [if_pos hdepth, if_pos hdepth, Option.bind_some, if_pos rfl]
  · rw [if_neg hdepth, if_neg hdepth, Option.bind_none]

/-! ## Parsing a line -/

/-- The records agree, and their payloads spell one value. -/
structure Same (written read : Record) : Prop where
  kind : read.kind = written.kind
  tsMs : read.tsMs = written.tsMs
  event : read.event = written.event
  payload : ∃ v, Text v written.payload ∧ Text v read.payload

theorem isContainer_terminated (v : Value) : isContainer v.terminated = isContainer v := by
  cases v <;> rfl

theorem kindFromString_kindString (kind : Kind) : kindFromString (kindString kind) = some kind := by
  cases kind <;> decide

theorem payload_of_accepted (h : record.accepted = true) :
    ∃ v, Text v record.payload ∧ isContainer v = true := by
  have hshape := (Bool.and_eq_true_iff.mp h).1
  unfold payloadShapeOk at hshape
  split at hshape
  · cases hshape
  · split at hshape
    · cases hshape
    · split at hshape
      · next json hparse =>
        obtain ⟨v, hv, rfl⟩ := (parse_ok_iff record.payload json).mp hparse
        exact ⟨v, hv, by rwa [isContainer_terminated] at hshape⟩
      · cases hshape

theorem event_of_accepted (h : record.accepted = true) :
    ¬ (record.kind = .gateway ∧ (record.event = none ∨ record.event = some [])) := by
  have hevent := (Bool.and_eq_true_iff.mp h).2
  intro hbad
  obtain ⟨hkind, hnone | hempty⟩ := hbad
  · simp [hkind, hnone] at hevent
  · simp [hkind, hempty] at hevent

theorem exists_item {v : Value} {input : Bytes} (h : Text v input) :
    ∃ a t b, Ws a ∧ Derives (.value v) t ∧ Ws b ∧ input = a ++ (t ++ b) := by
  cases h with
  | item ha ht hb => exact ⟨_, _, _, ha, ht, hb, rfl⟩

theorem objectGet_line (record : Record) (v : Value) :
    let root := (Value.object (lineEntries record v)).terminated
    objectGet root (asciiText "kind") = some (.string (kindString record.kind)) ∧
      objectGet root (asciiText "ts") = some (.number (Decimal.decimalText record.tsMs.toNat)) ∧
      objectGet root (asciiText "event") = record.event.map Value.string ∧
      objectGet root (asciiText "payload") = some v.terminated := by
  intro root
  have hkind : cString (kindString record.kind) = kindString record.kind :=
    (plainKey_kindString record.kind).1.cString_eq
  have hkeys : cString (asciiText "kind") = asciiText "kind" ∧
      cString (asciiText "ts") = asciiText "ts" ∧ cString (asciiText "event") = asciiText "event" ∧
      cString (asciiText "payload") = asciiText "payload" := by decide
  obtain ⟨hk, hts, he, hp⟩ := hkeys
  have hne : asciiText "kind" ≠ asciiText "ts" ∧ asciiText "kind" ≠ asciiText "event" ∧
      asciiText "kind" ≠ asciiText "payload" ∧ asciiText "ts" ≠ asciiText "event" ∧
      asciiText "ts" ≠ asciiText "payload" ∧ asciiText "event" ≠ asciiText "payload" ∧
      asciiText "payload" ≠ asciiText "event" := by decide
  obtain ⟨h1, h2, h3, h4, h5, h6, h7⟩ := hne
  cases hevent : record.event with
  | none =>
    simp [root, lineEntries, leadingMembers, hevent, Value.terminated, terminatedEntries, objectGet,
      hk, hts, hp, hkind, h1, h2, h3, h4, h5, h7]
  | some event =>
    have htext : cString event = event := by
      refine List.takeWhile_eq_self_iff.mpr fun c hc => ?_
      have hzero : c ≠ 0 := fun heq => record.noNul event hevent (heq ▸ hc)
      simpa using hzero
    simp [root, lineEntries, leadingMembers, hevent, Value.terminated, terminatedEntries, objectGet,
      hk, hts, he, hp, hkind, htext, h1, h2, h3, h4, h5, h6]

theorem jsonU64_decimalText (tsMs : UInt64) :
    jsonU64 (some (.number (Decimal.decimalText tsMs.toNat))) = some tsMs.toNat := by
  have hhead : (Decimal.decimalText tsMs.toNat).head? ≠ some chMinus := by
    intro hhead
    have hdigit := Decimal.digit_of_mem (List.mem_of_mem_head? hhead)
    exact absurd hdigit.1 (by decide)
  rw [jsonU64, if_neg hhead]
  refine Decimal.readDecimal_decimalText ?_
  have hlt := tsMs.toNat_lt
  simp only [wordMax, wordSize] at *
  omega

/-- **The player reads a line whose event is UTF-8** as the record, unless the payload is
nested too deep. -/
theorem parseLine_line (haccepted : record.accepted = true)
    (hevent : TextEvent record) {v : Value} (hv : Text v record.payload) :
    if depth v ≤ stackSize then ∃ read, parseLine (lineText record) = .ok read ∧ Same record read
    else parseLine (lineText record) = .error .json := by
  obtain ⟨w, hw, hcontainer⟩ := payload_of_accepted haccepted
  rw [text_unique hw hv] at hcontainer
  have hparse := (parse_ok_iff (lineText record) _).mpr ⟨_, text_line hevent hv, rfl⟩
  obtain ⟨hkind, hts, hname, hpayload⟩ := objectGet_line record v
  have hstring : jsonString (record.event.map Value.string) = record.event := by
    cases record.event <;> rfl
  have hcstring : record.event.map cString = record.event := by
    cases hrecord : record.event with
    | none => rfl
    | some event =>
      refine congrArg some (List.takeWhile_eq_self_iff.mpr fun c hc => ?_)
      have hzero : c ≠ 0 := fun heq => record.noNul event hrecord (heq ▸ hc)
      simpa using hzero
  have hguard : ¬ (((record.event.map Value.string).isSome ∧ record.event = none) ∨
      (record.kind = .gateway ∧ (record.event = none ∨ record.event = some []))) := by
    intro hor
    rcases hor with ⟨hsome, hnone⟩ | hgateway
    · rw [hnone] at hsome
      cases hsome
    · exact event_of_accepted haccepted hgateway
  obtain ⟨a, t, b, ha, ht, hb, hbytes⟩ := exists_item hv
  have hspan := payloadSpan_line ha ht hcontainer hbytes
  have hany : (some v.terminated).any isContainer = true := by
    rw [Option.any_some, isContainer_terminated, hcontainer]
  have hroot : (Value.object (lineEntries record v)).terminated =
      .object (terminatedEntries (lineEntries record v)) := rfl
  rw [hroot] at hparse hkind hts hname hpayload
  have hts' := jsonU64_decimalText record.tsMs
  have hkind' : jsonString (some (.string (kindString record.kind))) =
      some (kindString record.kind) := rfl
  by_cases hdepth : depth v ≤ stackSize
  · rw [if_pos hdepth] at hspan ⊢
    have htake : (t ++ (b ++ [chRBrace, chNewline])).take
        ((t ++ (b ++ [chRBrace, chNewline])).length - (b ++ [chRBrace, chNewline]).length) = t := by
      rw [List.length_append, Nat.add_sub_cancel, List.take_left]
    simp only [parseLine, hparse, hkind, hts, hname, hpayload, hkind', hts', hstring,
      if_pos hany, kindFromString_kindString, if_neg hguard, hspan, htake]
    refine ⟨_, rfl, rfl, ?_, ?_, v, hv, item_of_derives ht⟩
    · exact UInt64.ofNat_toNat
    · exact hcstring
  · rw [if_neg hdepth] at hspan ⊢
    simp only [parseLine, hparse, hkind, hts, hname, hpayload, hkind', hts', hstring,
      if_pos hany, kindFromString_kindString, if_neg hguard, hspan]

/-! ## Lines that are not JSON -/

theorem parseMembersFuel_inv {fuel : Nat} {cur rest : Bytes} {es : List (Bytes × Value)} {w : Value}
    (h : parseMembersFuel (fuel + 1) cur es = some (w, rest)) :
    ∃ key s p v r d q, parseStringArena cur = some (key, s) ∧ skipWs s = chColon :: p ∧
      parseValueFuel fuel p = some (v, r) ∧ skipWs r = d :: q ∧ (d = chRBrace ∨ d = chComma) := by
  obtain ⟨⟨key, s⟩, hkey, h⟩ := Option.bind_eq_some_iff.mp h
  split at h
  · cases h
  · next c p hcolon =>
    split at h
    · cases h
    · next hc =>
      obtain ⟨⟨v, r⟩, hvalue, h⟩ := Option.bind_eq_some_iff.mp h
      split at h
      · cases h
      · next d q hr =>
        rw [not_not.mp hc] at hcolon
        refine ⟨key, s, p, v, r, d, q, hkey, hcolon, hvalue, hr, ?_⟩
        by_cases hd : d = chRBrace
        · exact Or.inl hd
        · rw [if_neg hd] at h
          by_cases hcomma : d = chComma
          · exact Or.inr hcomma
          · rw [if_pos hcomma] at h
            cases h

theorem parseMembersFuel_leading {members : List (Bytes × Bytes × Value)}
    (hmembers : ∀ m ∈ members, Derives (.member m.1 m.2.2) (memberOf m)) {tail rest : Bytes}
    {w : Value} {fuel : Nat} {es : List (Bytes × Value)}
    (hfuel : 3 * (members.flatMap (fun m => memberOf m ++ [chComma]) ++ tail).length + 2 ≤ fuel)
    (h : parseMembersFuel fuel
      (skipWs (members.flatMap (fun m => memberOf m ++ [chComma]) ++ tail)) es = some (w, rest)) :
    ∃ fuel es, 3 * tail.length + 2 ≤ fuel ∧
      parseMembersFuel fuel (skipWs tail) es = some (w, rest) := by
  induction members generalizing fuel es with
  | nil => exact ⟨fuel, es, hfuel, h⟩
  | cons m members ih =>
    let more := members.flatMap (fun m => memberOf m ++ [chComma]) ++ tail
    have htext : (m :: members).flatMap (fun m => memberOf m ++ [chComma]) ++ tail =
        memberOf m ++ chComma :: more := by
      simp [more]
    rw [htext] at hfuel h
    obtain ⟨fuel, rfl⟩ : ∃ k, fuel = k + 1 := ⟨fuel - 1, by omega⟩
    obtain ⟨s, p, r, hstring, hcolon, hvalue, hr⟩ := (hmembers m List.mem_cons_self).reads fuel
      (chComma :: more) (NoneNext.cons (by decide) _) (NoneNext.cons (by decide) _) (by omega)
    rw [parseMembersFuel_round hstring hcolon hvalue hr, if_neg (by decide),
      if_neg (by decide)] at h
    refine ih (fun k hk => hmembers k (List.mem_cons_of_mem m hk)) ?_ h
    simp only [List.length_append, List.length_cons] at hfuel
    simp only [more] at hfuel
    omega

theorem value_of_text {members : List (Bytes × Bytes × Value)}
    (hmembers : ∀ m ∈ members, Derives (.member m.1 m.2.2) (memberOf m)) {key tail : Bytes}
    (hkey : Piece.PlainKey key) {w : Value}
    (h : Text w (chLBrace ::
      (members.flatMap (fun m => memberOf m ++ [chComma]) ++ memberText key tail))) :
    ∃ fuel v r d q, parseValueFuel fuel tail = some (v, r) ∧ skipWs r = d :: q ∧
      (d = chRBrace ∨ d = chComma) := by
  let body := members.flatMap (fun m => memberOf m ++ [chComma]) ++ memberText key tail
  obtain ⟨rest, hparse, -⟩ := parseValue_of_text h
  have hhead : body.head? = some chQuote := by
    cases members <;> rfl
  have hobject : parseMembersFuel (3 * body.length + 2) (skipWs body) [] = some (w, rest) := by
    have hskip : skipWs body = body := by
      cases hbody : body with
      | nil =>
        rw [hbody] at hhead
        cases hhead
      | cons c p =>
        rw [hbody] at hhead
        rw [Option.some.inj hhead]
        exact skipWs_cons (by decide) p
    have hfuel : parseFuel (chLBrace :: body) = 3 * body.length + 2 + 1 + 1 := by
      rw [parseFuel, List.length_cons]
      omega
    rw [parseValue, hfuel, parseValueFuel_brace, parseObjectFuel, hskip, hhead,
      if_neg (by decide)] at hparse
    rw [hskip]
    exact hparse
  obtain ⟨fuel, es, hfuel, hrun⟩ := parseMembersFuel_leading hmembers (Nat.le_refl _) hobject
  obtain ⟨fuel, rfl⟩ : ∃ k, fuel = k + 1 := ⟨fuel - 1, by omega⟩
  obtain ⟨key', s, p, v, r, d, q, hstring, hcolon, hvalue, hr, hd⟩ := parseMembersFuel_inv hrun
  obtain ⟨⟨cs, htext, -⟩, hescape⟩ := hkey
  have hchars := chars_escape cs
  rw [← htext, hescape] at hchars
  have hread := parseStringArena_complete hchars (chColon :: tail)
  rw [memberText, skipWs_cons (by decide), hread] at hstring
  obtain ⟨-, rfl⟩ := Prod.mk.inj (Option.some.inj hstring)
  rw [skipWs_cons (by decide)] at hcolon
  obtain ⟨-, rfl⟩ := List.cons.inj hcolon
  exact ⟨fuel, v, r, d, q, hvalue, hr, hd⟩

theorem derives_memberOf (hm : m ∈ leadingMembers record) (h : Derives (.value m.2.2) m.2.1) :
    Derives (.member m.1 m.2.2) (memberOf m) :=
  Piece.derives_plainKey (plainKey_leading hm) (item_of_derives h)

theorem not_text_of_event (hevent : ¬ TextEvent record) (tail : Bytes) (w : Value) :
    ¬ Text w (lineHead record ++ tail) := by
  intro htext
  obtain ⟨event, hsome, hbad⟩ : ∃ event, record.event = some event ∧ ¬ ∃ cs, event = utf8 cs := by
    simpa [TextEvent] using hevent
  let silent : Record := { record with event := none, noNul := fun _ h => by cases h }
  have hmembers : ∀ m ∈ leadingMembers silent, Derives (.member m.1 m.2.2) (memberOf m) := by
    intro m hm
    exact derives_memberOf hm (@derives_leading silent (fun _ h => by cases h) m hm)
  have hhead : lineHead record ++ tail = chLBrace ::
      ((leadingMembers silent).flatMap (fun m => memberOf m ++ [chComma]) ++
        memberText (asciiText "event") (chQuote :: (jsonEscape event ++ chQuote ::
          chComma :: memberText (asciiText "payload") tail))) := by
    rw [lineHead_eq]
    simp [leadingMembers, silent, hsome, memberOf, memberText, quoted]
  rw [hhead] at htext
  obtain ⟨fuel, v, r, d, q, hvalue, -⟩ :=
    value_of_text hmembers (plainKey_of_asciiKey (by decide)) htext
  cases fuel with
  | zero => cases hvalue
  | succ fuel =>
    rw [parseValueFuel_cons (by decide), if_neg (by decide), if_neg (by decide), if_pos rfl]
      at hvalue
    obtain ⟨⟨text, rest⟩, hstring, -⟩ := Option.map_eq_some_iff.mp hvalue
    obtain ⟨raw, cs, hcur, hchars, -⟩ := parseStringArena_sound hstring
    obtain ⟨hraw, -⟩ := (passes_jsonEscape event).unique (passes_chars hchars)
      (List.cons.inj hcur).2
    rw [← hraw] at hchars
    exact hbad ⟨cs, eq_utf8_of_chars hchars⟩

theorem not_text_of_cut {record : Record} {v : Value} (hv : Text v record.payload) {cut more : Bytes}
    (hcut : record.payload = cut ++ more) (w : Value) : ¬ Text w (lineHead record ++ cut) := by
  intro htext
  by_cases hevent : TextEvent record
  · have hmembers : ∀ m ∈ leadingMembers record, Derives (.member m.1 m.2.2) (memberOf m) :=
      fun m hm => derives_memberOf hm (derives_leading hevent m hm)
    have hhead : lineHead record ++ cut = chLBrace ::
        ((leadingMembers record).flatMap (fun m => memberOf m ++ [chComma]) ++
          memberText (asciiText "payload") cut) := by
      rw [lineHead_eq]
      simp [memberText]
    rw [hhead] at htext
    obtain ⟨fuel, u, r, d, q, hvalue, hr, hd⟩ :=
      value_of_text hmembers (plainKey_of_asciiKey (by decide)) htext
    -- the value that is read there is the one of the whole payload
    obtain ⟨t, ht, hread⟩ := (parse_sound_fuel fuel).1 _ _ _ hvalue
    obtain ⟨a, ha, hcur⟩ := exists_ws cut
    obtain ⟨b, hb, hrest⟩ := exists_ws r
    obtain ⟨a', t', b', ha', ht', hb', hbytes⟩ := exists_item hv
    have hbody : t ++ (b ++ d :: (q ++ more)) = t' ++ b' := by
      have hskip := congrArg skipWs (hcut.symm.trans hbytes)
      rw [hcur, hread, hrest, hr, List.append_assoc, skipWs_append ha, skipWs_append ha',
        List.append_assoc, skipWs, skipWs, (ht.noneNext_ws _).dropWhile,
        (ht'.noneNext_ws _).dropWhile] at hskip
      simpa using hskip
    have hnumber : isNumberChar d = false ∧ isWs d = false := by
      rcases hd with rfl | rfl <;> decide
    have hleft := ht.reads _ (b ++ d :: (q ++ more))
      (noneNext_after_ws hb (NoneNext.cons hnumber.1 _)) (Nat.le_refl _)
    have hright := ht'.reads _ b' (by simpa using noneNext_after_ws hb' (NoneNext.nil _))
      (Nat.le_refl _)
    rw [hbody, hright] at hleft
    have hsame : b' = b ++ d :: (q ++ more) := congrArg Prod.snd (Option.some.inj hleft)
    have hspace := isWs_iff.mpr (hb' d (by simp [hsame]))
    rw [hnumber.2] at hspace
    cases hspace
  · exact not_text_of_event hevent cut w htext

/-! ## Reading lines -/

theorem readLineFrom_line {l : Bytes} (hl : chNewline ∉ l) (rest : Bytes) (len : Nat) :
    readLineFrom len (l ++ chNewline :: rest) =
      if len + l.length < maxLineSize then .ok (l ++ [chNewline], rest) else .error .nomem := by
  induction l generalizing len with
  | nil =>
    rw [List.nil_append, readLineFrom, List.length_nil, Nat.add_zero, if_pos rfl]
    split_ifs <;> first | rfl | omega
  | cons c l ih =>
    have hc : c ≠ chNewline := fun heq => hl (heq ▸ List.mem_cons_self)
    have hrest := ih (fun hmem => hl (List.mem_cons_of_mem c hmem)) (len + 1)
    rw [List.cons_append, readLineFrom, hrest, if_neg hc, List.length_cons]
    split_ifs <;> first | rfl | omega

theorem readLine_line {l : Bytes} (hl : chNewline ∉ l) (rest : Bytes) :
    readLine (l ++ chNewline :: rest) =
      if (l ++ [chNewline]).length ≤ maxLineSize then .ok (l ++ [chNewline], rest)
      else .error .nomem := by
  rw [readLine, if_neg (by simp), readLineFrom_line hl, List.length_append, List.length_singleton]
  split_ifs <;> first | rfl | omega

theorem newline_not_mem_decimalText (n : Nat) : chNewline ∉ Decimal.decimalText n := by
  intro hmem
  exact absurd (Decimal.digit_of_mem hmem).1 (by decide)

theorem newline_not_mem_jsonEscape (text : Bytes) : chNewline ∉ jsonEscape text := by
  intro hmem
  obtain ⟨c, -, hc⟩ := List.mem_flatMap.mp hmem
  have hdigit : ∀ n < 0x20, chNewline ≠ hexDigitLower (UInt8.ofNat n >>> 4) ∧
      chNewline ≠ hexDigitLower (UInt8.ofNat n &&& 0x0f) := by decide
  unfold replayEscape at hc
  split_ifs at hc with h1 h2 h3 h4 h5 h6 h7 h8
  · exact absurd hc (by decide)
  · exact absurd hc (by decide)
  · exact absurd hc (by decide)
  · exact absurd hc (by decide)
  · exact absurd hc (by decide)
  · exact absurd hc (by decide)
  · exact absurd hc (by decide)
  · obtain ⟨hhigh, hlow⟩ := hdigit c.toNat (UInt8.lt_iff_toNat_lt.mp h8)
    rw [UInt8.ofNat_toNat] at hhigh hlow
    simp only [List.mem_cons, List.not_mem_nil, or_false] at hc
    rcases hc with h | h | h | h | h | h
    · exact absurd h (by decide)
    · exact absurd h (by decide)
    · exact absurd h (by decide)
    · exact absurd h (by decide)
    · exact hhigh h
    · exact hlow h
  · exact h5 (List.mem_singleton.mp hc).symm

theorem newline_not_mem_lineHead (record : Record) : chNewline ∉ lineHead record := by
  have hkind : chNewline ∉ kindString record.kind := by
    cases record.kind <;> decide
  have htexts : chNewline ∉ asciiText "\x7b\"kind\":\"" ∧ chNewline ∉ asciiText "\",\"ts\":" ∧
      chNewline ∉ asciiText ",\"event\":\"" ∧ chNewline ∉ asciiText ",\"payload\":" ∧
      chNewline ≠ chQuote := by decide
  obtain ⟨h1, h2, h3, h4, h5⟩ := htexts
  cases hevent : record.event with
  | none => simp [lineHead, hevent, hkind, h1, h2, h4, newline_not_mem_decimalText]
  | some event =>
    simp [lineHead, hevent, hkind, h1, h2, h3, h4, h5, newline_not_mem_decimalText,
      newline_not_mem_jsonEscape]

/-! ## The log -/

/-- What a record needs to be played back. -/
structure Fits (record : Record) : Prop where
  oneLine : chNewline ∉ record.payload
  shallow : ∀ v, Text v record.payload → depth v ≤ stackSize
  short : (lineText record).length ≤ maxLineSize
  textEvent : TextEvent record

/-- The line of such a record is read and parsed to the record. -/
theorem playerNext_fits (haccepted : record.accepted = true) (h : Fits record) (file : Bytes) :
    ∃ read, playerNext (lineText record ++ file) = .ok (read, file) ∧ Same record read := by
  obtain ⟨v, hv, -⟩ := payload_of_accepted haccepted
  have hline := parseLine_line haccepted h.textEvent hv
  rw [if_pos (h.shallow v hv)] at hline
  obtain ⟨read, hparse, hsame⟩ := hline
  have hl : chNewline ∉ lineHead record ++ (record.payload ++ [chRBrace]) := by
    have hhead := newline_not_mem_lineHead record
    have hpayload := h.oneLine
    have hbrace : chNewline ≠ chRBrace := by decide
    simp [hhead, hpayload, hbrace]
  have hbytes :
      lineText record = lineHead record ++ (record.payload ++ [chRBrace]) ++ [chNewline] := by
    simp [lineText]
  have hread : readLine (lineText record ++ file) = .ok (lineText record, file) := by
    have hread := readLine_line hl file
    rw [← hbytes, if_pos h.short] at hread
    rw [← hread, hbytes]
    simp
  refine ⟨read, ?_, hsame⟩
  simp only [playerNext, hread, hparse, bind, Except.bind, pure, Except.pure]

/-- **What any other record leaves in the log is not played back.** -/
theorem playerNext_unfit (haccepted : record.accepted = true) (h : ¬ Fits record)
    (file : Bytes) : ∃ status, playerNext (lineText record ++ file) = .error status := by
  obtain ⟨v, hv, -⟩ := payload_of_accepted haccepted
  -- whatever the line is, reading it fails or it is refused
  have hrefused : ∀ l rest, chNewline ∉ l → lineText record ++ file = l ++ chNewline :: rest →
      ((l ++ [chNewline]).length ≤ maxLineSize → parseLine (l ++ [chNewline]) = .error .json) →
      ∃ status, playerNext (lineText record ++ file) = .error status := by
    intro l rest hl hbytes hparse
    have hread := readLine_line hl rest
    rw [← hbytes] at hread
    by_cases hshort : (l ++ [chNewline]).length ≤ maxLineSize
    · rw [if_pos hshort] at hread
      refine ⟨.json, ?_⟩
      simp only [playerNext, hread, hparse hshort, bind, Except.bind]
    · rw [if_neg hshort] at hread
      refine ⟨.nomem, ?_⟩
      simp only [playerNext, hread, bind, Except.bind]
  have hnotText : ∀ line, (∀ w, ¬ Text w line) → parseLine line = .error .json := by
    intro line hline
    rw [parseLine, parse_refused line hline]
  have hhead := newline_not_mem_lineHead record
  by_cases hone : chNewline ∈ record.payload
  · obtain ⟨cut, more, hpayload, hcut⟩ := List.eq_append_cons_of_mem hone
    refine hrefused (lineHead record ++ cut) (more ++ [chRBrace, chNewline] ++ file)
      (by simp [hhead, hcut]) (by simp [lineText, hpayload]) fun _ => ?_
    refine hnotText _ fun w => ?_
    rw [List.append_assoc]
    exact @not_text_of_cut _ _ hv _ more (by rw [hpayload]; simp) w
  · have hbytes : lineHead record ++ (record.payload ++ [chRBrace]) ++ [chNewline] =
        lineText record := by
      simp [lineText]
    have hbrace : chNewline ≠ chRBrace := by decide
    refine hrefused (lineHead record ++ (record.payload ++ [chRBrace])) file
      (by simp [hhead, hone, hbrace]) (by simp [lineText]) fun hshort => ?_
    rw [hbytes] at hshort ⊢
    by_cases hevent : TextEvent record
    · have hline := parseLine_line haccepted hevent hv
      have hdeep : ¬ depth v ≤ stackSize := by
        intro hdepth
        refine h ⟨hone, fun w hw => ?_, hshort, hevent⟩
        rwa [text_unique hw hv]
      rwa [if_neg hdeep] at hline
    · exact hnotText _ fun w => not_text_of_event hevent _ w

theorem recordAll_eq {records : List Record} (h : ∀ r ∈ records, r.accepted = true) :
    recordAll records = records.flatMap lineText := by
  have hfrom : ∀ (records : List Record) (file : Bytes), (∀ r ∈ records, r.accepted = true) →
      records.foldl (fun file record => (recorderWrite file record).2) file =
        file ++ records.flatMap lineText := by
    intro records
    induction records with
    | nil => simp
    | cons r records ih =>
      intro file hall
      have hrest := ih (file ++ lineText r) fun k hk => hall k (List.mem_cons_of_mem r hk)
      rw [List.foldl_cons, recorderWrite, if_pos (hall r List.mem_cons_self), hrest,
        List.flatMap_cons, List.append_assoc]
  exact hfrom records [] h

theorem playFrom_lines {records : List Record} (h : ∀ r ∈ records, r.accepted = true) {fuel : Nat}
    (hfuel : records.length < fuel) :
    (∃ read, playFrom fuel (records.flatMap lineText) = (read, .canceled) ∧
        List.Forall₂ Same records read) ↔ ∀ r ∈ records, Fits r := by
  induction records generalizing fuel with
  | nil =>
    obtain ⟨fuel, rfl⟩ : ∃ k, fuel = k + 1 := ⟨fuel - 1, by omega⟩
    refine ⟨fun _ r hr => absurd hr List.not_mem_nil, fun _ => ⟨[], rfl, List.Forall₂.nil⟩⟩
  | cons r records ih =>
    obtain ⟨fuel, rfl⟩ : ∃ k, fuel = k + 1 := ⟨fuel - 1, by omega⟩
    have hr := h r List.mem_cons_self
    have hrest := @ih (fun k hk => h k (List.mem_cons_of_mem r hk)) fuel (by simpa using hfuel)
    rw [List.flatMap_cons]
    by_cases hfits : Fits r
    · obtain ⟨read, hnext, hsame⟩ := playerNext_fits hr hfits (records.flatMap lineText)
      simp only [playFrom, hnext, List.forall_mem_cons, Prod.mk.injEq]
      constructor
      · intro hplayed
        obtain ⟨all, ⟨hall, hstatus⟩, hagree⟩ := hplayed
        rw [← hall] at hagree
        obtain ⟨-, hmore⟩ := List.forall₂_cons.mp hagree
        exact ⟨hfits, hrest.mp ⟨_, Prod.ext rfl hstatus, hmore⟩⟩
      · intro hall
        obtain ⟨reads, hplay, hagree⟩ := hrest.mpr hall.2
        refine ⟨read :: reads, ?_, List.Forall₂.cons hsame hagree⟩
        rw [hplay]
        exact ⟨rfl, rfl⟩
    · obtain ⟨status, hnext⟩ := playerNext_unfit hr hfits (records.flatMap lineText)
      simp only [playFrom, hnext, Prod.mk.injEq]
      constructor
      · intro hplayed
        obtain ⟨all, ⟨hall, -⟩, hagree⟩ := hplayed
        rw [← hall] at hagree
        cases hagree
      · intro hall
        exact absurd (hall r List.mem_cons_self) hfits

theorem length_flatMap_lineText (records : List Record) :
    records.length ≤ (records.flatMap lineText).length := by
  induction records with
  | nil => exact Nat.le_refl 0
  | cons r records ih =>
    rw [List.flatMap_cons, List.length_append, List.length_cons, lineText, List.length_append,
      List.length_append, List.length_cons]
    omega

/-- **A log is played back exactly when every record in it fits.**  The player then gives the
same records, payloads as the same values, and ends at the end of the file; otherwise it stops
at the first record that does not fit. -/
theorem played_back_iff {records : List Record} (h : ∀ r ∈ records, r.accepted = true) :
    (∃ read, play (recordAll records) = (read, .canceled) ∧ List.Forall₂ Same records read) ↔
      ∀ r ∈ records, Fits r := by
  rw [recordAll_eq h, play]
  exact playFrom_lines h (Nat.lt_succ_of_le (length_flatMap_lineText records))

/-- A record whose payload is an empty object with these bytes in it. -/
def emptyPayload (blank : Bytes) : Record where
  kind := .gateway
  tsMs := 5
  event := some (asciiText "READY")
  noNul := by
    intro text htext
    rw [← Option.some.inj htext]
    decide
  payload := chLBrace :: (blank ++ [chRBrace])

theorem text_emptyPayload {blank : Bytes} (h : Ws blank) :
    Text (.object []) (emptyPayload blank).payload := item_of_derives (Derives.emptyObject h)

theorem emptyPayload_accepted {blank : Bytes} (h : Ws blank) :
    (emptyPayload blank).accepted = true := by
  have hparse := (parse_ok_iff (emptyPayload blank).payload _).mpr ⟨_, text_emptyPayload h, rfl⟩
  have hskip : skipWs (emptyPayload blank).payload = chLBrace :: (blank ++ [chRBrace]) :=
    skipWs_cons (by decide) _
  have hshape : payloadShapeOk (emptyPayload blank).payload = true := by
    simp [payloadShapeOk, hskip, hparse, Value.terminated, isContainer]
  have hevent : asciiText "READY" ≠ [] := by decide
  rw [Record.accepted, hshape]
  simp [emptyPayload, hevent]

/-- A log of two records, one with spaces in its payload, is played back. -/
theorem played_back_spaces :
    ∃ read, play (recordAll [emptyPayload [], emptyPayload [0x20]]) = (read, .canceled) ∧
      List.Forall₂ Same [emptyPayload [], emptyPayload [0x20]] read := by
  have hws : Ws [] ∧ Ws [0x20] := ⟨ws_nil, by intro c hc; rw [List.mem_singleton.mp hc]; decide⟩
  refine (played_back_iff ?_).mpr ?_
  · simp only [List.forall_mem_cons, List.not_mem_nil, false_implies, implies_true, and_true]
    exact ⟨emptyPayload_accepted hws.1, emptyPayload_accepted hws.2⟩
  · have hfits : ∀ {blank}, Ws blank → chNewline ∉ (emptyPayload blank).payload →
        (lineText (emptyPayload blank)).length ≤ maxLineSize → Fits (emptyPayload blank) := by
      intro blank hblank hone hshort
      refine ⟨hone, fun v hv => ?_, hshort, fun event hevent => ?_⟩
      · rw [text_unique hv (text_emptyPayload hblank)]
        decide
      · obtain ⟨cs, htext, -⟩ := (@plainKey_of_asciiKey (asciiText "READY") (by decide)).1
        exact ⟨cs, (Option.some.inj hevent).symm.trans htext⟩
    simp only [List.forall_mem_cons, List.not_mem_nil, false_implies, implies_true, and_true]
    exact ⟨hfits hws.1 (by decide) (by decide +kernel), hfits hws.2 (by decide) (by decide +kernel)⟩

/-- A payload with a line feed is accepted and not played back. -/
theorem line_feed_not_played_back :
    (emptyPayload [chNewline]).accepted = true ∧
      ¬ ∃ read, play (recordAll [emptyPayload [chNewline]]) = (read, .canceled) ∧
        List.Forall₂ Same [emptyPayload [chNewline]] read := by
  have haccepted : (emptyPayload [chNewline]).accepted = true :=
    emptyPayload_accepted (by intro c hc; rw [List.mem_singleton.mp hc]; decide)
  refine ⟨haccepted, fun hplayed => ?_⟩
  have hall : ∀ r ∈ [emptyPayload [chNewline]], r.accepted = true := by
    intro r hr
    rw [List.mem_singleton.mp hr]
    exact haccepted
  rw [recordAll_eq hall, play] at hplayed
  have hfits := (playFrom_lines hall (Nat.lt_succ_of_le (length_flatMap_lineText _))).mp hplayed
  exact (hfits _ List.mem_cons_self).oneLine (by decide)

end Dcc.Replay
