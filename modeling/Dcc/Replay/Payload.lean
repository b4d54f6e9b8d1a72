import Dcc.Replay.RoundTrip

/-!
# The payload that the player returns

The player parses a line for its fields and scans it again for the bytes of the payload.  The
tree is searched for the first member whose decoded key, up to a NUL, is `payload`; the scan
compares the bytes between the quotes.

* `SourceOf` — the members of an object as a line spells them;
* `payloadSpanFrom_members` — the scan gives the value of the first member that is spelled
  `"payload"`;
* `payload_source_iff` — so the payload is the source of the member in the tree exactly when
  the two members have one text;
* `escaped_key_wins` — a member whose key is spelled with an escape can be in the tree alone.
-/

namespace Dcc.Replay

open Json Json.Grammar Commands

/-! ## Members as they are spelled -/

/-- A member: what stands between the quotes of its key, the key, the text of its value, and
the value. -/
structure Member where
  raw : Bytes
  key : Bytes
  text : Bytes
  value : Value

/-- The member in the tree. -/
def Member.entry (m : Member) : Bytes × Value := (m.key, m.value)

/-- The text of a member, with whitespace. -/
inductive Spelled : Member → Bytes → Prop
  | mk {a raw b c t d : Bytes} {cs : List Char} {v : Value} (ha : Ws a) (hkey : Chars raw cs)
      (hb : Ws b) (hc : Ws c) (ht : Derives (.value v) t) (hd : Ws d) :
      Spelled ⟨raw, utf8 cs, t, v⟩ (a ++ 0x22 :: (raw ++ 0x22 :: (b ++ 0x3a :: (c ++ (t ++ d)))))

/-- The text of members with commas between them. -/
inductive Members : List Member → Bytes → Prop
  | last {m : Member} {t : Bytes} (h : Spelled m t) : Members [m] t
  | more {m : Member} {ms : List Member} {t rest : Bytes} (h : Spelled m t)
      (hrest : Members ms rest) : Members (m :: ms) (t ++ 0x2c :: rest)

/-- A line is an object with these members. -/
inductive SourceOf : List Member → Bytes → Prop
  | empty {a w b : Bytes} (ha : Ws a) (hw : Ws w) (hb : Ws b) :
      SourceOf [] (a ++ (0x7b :: (w ++ [0x7d]) ++ b))
  | members {a t b : Bytes} {ms : List Member} (ha : Ws a) (h : Members ms t) (hb : Ws b) :
      SourceOf ms (a ++ (0x7b :: (t ++ [0x7d]) ++ b))

theorem spelled_of_derives {key t : Bytes} {v : Value} (h : Derives (.member key v) t) :
    ∃ m, Spelled m t ∧ m.entry = (key, v) := by
  cases h with
  | member ha hkey hb h =>
    cases h with
    | item hc ht hd => exact ⟨_, .mk ha hkey hb hc ht hd, rfl⟩

variable {m : Member}

theorem Spelled.derives {t : Bytes} (h : Spelled m t) :
    Derives (.member m.key m.value) t := by
  cases h with
  | mk ha hkey hb hc ht hd => exact .member ha hkey hb (.item hc ht hd)

variable {entries : List (Bytes × Value)}

theorem members_of_derives {t : Bytes}
    (h : Derives (.members entries) t) : ∃ ms, Members ms t ∧ ms.map Member.entry = entries := by
  generalize hph : Phrase.members entries = ph at h
  induction h generalizing entries with
  | lastMember h =>
    cases hph
    obtain ⟨m, hm, hentry⟩ := spelled_of_derives h
    exact ⟨[m], .last hm, by rw [List.map_singleton, hentry]⟩
  | moreMembers h _ _ ih =>
    cases hph
    obtain ⟨m, hm, hentry⟩ := spelled_of_derives h
    obtain ⟨ms, hms, hentries⟩ := ih rfl
    exact ⟨m :: ms, .more hm hms, by rw [List.map_cons, hentry, hentries]⟩
  | _ => cases hph

variable {ms : List Member}

theorem Members.derives {t : Bytes} (h : Members ms t) :
    Derives (.members (ms.map Member.entry)) t := by
  induction h with
  | last h => exact .lastMember h.derives
  | more h _ ih => exact .moreMembers h.derives ih

theorem Members.text {t : Bytes} (h : Members ms t) (hm : m ∈ ms) :
    Derives (.value m.value) m.text := by
  have hspelled : ∀ {m : Member} {t : Bytes}, Spelled m t → Derives (.value m.value) m.text := by
    intro m t h
    cases h with
    | mk _ _ _ _ ht _ => exact ht
  induction h with
  | last h =>
    rw [List.mem_singleton.mp hm]
    exact hspelled h
  | more h _ ih =>
    rcases List.mem_cons.mp hm with rfl | hm
    · exact hspelled h
    · exact ih hm

variable {line : Bytes}

/-- **A line that is an object has members as they are spelled**, and its tree has them in
this order. -/
theorem sourceOf_of_text (h : Text (.object entries) line) :
    ∃ members, SourceOf members line ∧ members.map Member.entry = entries := by
  cases h with
  | item ha h hb =>
    cases h with
    | emptyObject hw => exact ⟨[], .empty ha hw hb, rfl⟩
    | object h =>
      obtain ⟨ms, hms, hentries⟩ := members_of_derives h
      exact ⟨ms, .members ha hms hb, hentries⟩

variable {members : List Member}

theorem SourceOf.toText (h : SourceOf members line) :
    Text (.object (members.map Member.entry)) line := by
  cases h with
  | empty ha hw hb => exact .item ha (.emptyObject hw) hb
  | members ha h hb => exact .item ha (.object h.derives) hb

/-! ## The scan over members -/

section Scan

variable {a raw b d t rest q : Bytes} {v : Value} {e : UInt8}

theorem number_inert (h : Number t) : ∀ c ∈ t, ScanInert c ∧ c ≠ chComma := by
  obtain ⟨integer, hspan⟩ := parseNumberSpan_complete h (NoneNext.nil _)
  obtain ⟨w, hw, hchars⟩ := numberRun_span hspan
  rw [List.append_nil, List.append_nil] at hw
  subst hw
  intro c hc
  have hnumber := hchars c hc
  refine ⟨⟨?_, ?_, ?_, ?_, ?_⟩, ?_⟩ <;>
    · intro heq
      rw [heq] at hnumber
      exact absurd hnumber (by decide)

theorem skipValue_scalar (ht : Derives (.value v) t)
    (hinert : ∀ c ∈ t, ScanInert c ∧ c ≠ chComma) (hd : Ws d)
    (he : e = chComma ∨ e = chRBrace) (rest : Bytes) :
    skipValue (t ++ (d ++ e :: rest)) = some (e :: rest) := by
  have hws : skipWs (t ++ (d ++ e :: rest)) = t ++ (d ++ e :: rest) :=
    (ht.noneNext_ws _).dropWhile
  have hrun : (t ++ (d ++ e :: rest)).dropWhile (fun d => d ≠ chComma && d ≠ chRBrace) =
      e :: rest := by
    rw [← List.append_assoc]
    refine dropWhile_run (fun c hc => ?_) (NoneNext.cons ?_ rest)
    · rcases List.mem_append.mp hc with hc | hc
      · obtain ⟨⟨-, -, -, hbrace, -⟩, hcomma⟩ := hinert c hc
        simp [hbrace, hcomma]
      · rcases hd c hc with rfl | rfl | rfl | rfl <;> decide
    · rcases he with rfl | rfl <;> decide
  cases t with
  | nil => exact absurd (ht.noneNext_ws [0x20] 0x20 rfl) (by decide)
  | cons c t =>
    obtain ⟨⟨hquote, hlb, hlk, -⟩, -⟩ := hinert c List.mem_cons_self
    rw [List.cons_append] at hws hrun ⊢
    rw [skipValue, hws]
    simp only [if_neg hquote, if_pos (And.intro hlb hlk), hrun]

/-- **The scan over a value** passes its text, and the whitespace behind it at most. -/
theorem skipValue_written (ht : Derives (.value v) t) (hd : Ws d) (he : e = chComma ∨ e = chRBrace)
    (h : skipValue (t ++ (d ++ e :: rest)) = some q) :
    skipWs q = e :: rest ∧
      ∃ u, t ++ (d ++ e :: rest) = t ++ u ++ q ∧ (isContainer v = true → u = []) := by
  have hnext : skipWs (e :: rest) = e :: rest := by
    refine skipWs_cons ?_ rest
    rcases he with rfl | rfl <;> decide
  have hwhole : skipWs (d ++ e :: rest) = e :: rest ∧
      ∃ u, t ++ (d ++ e :: rest) = t ++ u ++ (d ++ e :: rest) ∧ (isContainer v = true → u = []) :=
    ⟨(skipWs_append hd _).trans hnext, [], by simp, fun _ => rfl⟩
  have hscalar : isContainer v = false → (∀ c ∈ t, ScanInert c ∧ c ≠ chComma) →
      skipWs q = e :: rest ∧
        ∃ u, t ++ (d ++ e :: rest) = t ++ u ++ q ∧ (isContainer v = true → u = []) := by
    intro hv hinert
    rw [skipValue_scalar ht hinert hd he] at h
    cases h
    refine ⟨hnext, d, by simp, fun hcontainer => ?_⟩
    rw [hv] at hcontainer
    cases hcontainer
  have hcontainer : isContainer v = true → skipWs q = e :: rest ∧
      ∃ u, t ++ (d ++ e :: rest) = t ++ u ++ q ∧ (isContainer v = true → u = []) := by
    intro hv
    rw [skipValue_container ht hv] at h
    split at h
    · cases h
      exact hwhole
    · cases h
  have hliteral : ∀ {w : Bytes}, w.all (fun c => decide (ScanInert c ∧ c ≠ chComma)) = true →
      ∀ c ∈ w, ScanInert c ∧ c ≠ chComma :=
    fun hall c hc => of_decide_eq_true (List.all_eq_true.mp hall c hc)
  cases ht with
  | null => exact hscalar rfl (hliteral (by decide))
  | true => exact hscalar rfl (hliteral (by decide))
  | false => exact hscalar rfl (hliteral (by decide))
  | number hnumber => exact hscalar rfl (number_inert hnumber)
  | @string raw cs hchars =>
    have htext : 0x22 :: (raw ++ [0x22]) ++ (d ++ e :: rest) =
        chQuote :: (raw ++ chQuote :: (d ++ e :: rest)) := by
      simp
    rw [htext, skipValue_string (passes_chars hchars)] at h
    cases h
    exact hwhole
  | _ => exact hcontainer rfl

theorem payloadSpanFrom_spelled (ha : Ws a) (hraw : Passes raw) (hb : Ws b) (fuel : Nat)
    (rest : Bytes) :
    payloadSpanFrom (fuel + 1) (a ++ 0x22 :: (raw ++ 0x22 :: (b ++ 0x3a :: rest))) =
      (skipValue (skipWs rest)).bind fun valueEnd =>
        if raw = asciiText "payload" then some (skipWs rest, valueEnd)
        else
          match skipWs valueEnd with
          | [] => none
          | c :: p => if c ≠ chComma then none else payloadSpanFrom fuel p := by
  have hskip : skipWs (a ++ 0x22 :: (raw ++ 0x22 :: (b ++ 0x3a :: rest))) =
      0x22 :: (raw ++ 0x22 :: (b ++ 0x3a :: rest)) :=
    (skipWs_append ha _).trans (skipWs_cons (by decide) _)
  have hstring : skipString (0x22 :: (raw ++ 0x22 :: (b ++ 0x3a :: rest))) =
      some (b ++ 0x3a :: rest) := by
    rw [skipString, if_pos rfl]
    exact skipStringBody_close hraw _
  have htake : ((0x22 :: (raw ++ 0x22 :: (b ++ 0x3a :: rest))).drop 1).take
      ((0x22 :: (raw ++ 0x22 :: (b ++ 0x3a :: rest))).length - (b ++ 0x3a :: rest).length - 2) =
        raw := by
    have hlen : (0x22 :: (raw ++ 0x22 :: (b ++ 0x3a :: rest))).length -
        (b ++ 0x3a :: rest).length - 2 = raw.length := by
      simp only [List.length_cons, List.length_append]
      omega
    rw [hlen, List.drop_succ_cons, List.drop_zero, List.take_left]
  have hcolon : skipWs (b ++ 0x3a :: rest) = chColon :: rest :=
    (skipWs_append hb _).trans (skipWs_cons (by decide) _)
  simp only [payloadSpanFrom, hskip, hstring, htake, hcolon, ne_eq, not_true_eq_false, if_false,
    bind, Option.bind_some] <;> rfl

/-- The member is spelled `"payload"`. -/
def Member.literal (m : Member) : Bool := m.raw == asciiText "payload"

variable {begin stop : Bytes}

theorem payloadSpanFrom_member {fuel : Nat} (hm : Spelled m t) (he : e = chComma ∨ e = chRBrace)
    (h : payloadSpanFrom (fuel + 1) (t ++ e :: rest) = some (begin, stop)) :
    (m.literal = true ∧ ∃ u, begin = m.text ++ u ++ stop ∧ (isContainer m.value = true → u = [])) ∨
      (m.literal = false ∧ e = chComma ∧ payloadSpanFrom fuel rest = some (begin, stop)) := by
  cases hm with
  | @mk a raw b c t d cs v ha hkey hb hc ht hd =>
    have htext : a ++ 0x22 :: (raw ++ 0x22 :: (b ++ 0x3a :: (c ++ (t ++ d)))) ++ e :: rest =
        a ++ 0x22 :: (raw ++ 0x22 :: (b ++ 0x3a :: (c ++ (t ++ (d ++ e :: rest))))) := by
      simp
    have hvalue : skipWs (c ++ (t ++ (d ++ e :: rest))) = t ++ (d ++ e :: rest) :=
      (skipWs_append hc _).trans (ht.noneNext_ws _).dropWhile
    rw [htext, payloadSpanFrom_spelled ha (passes_chars hkey) hb, hvalue] at h
    obtain ⟨valueEnd, hskip, h⟩ := Option.bind_eq_some_iff.mp h
    obtain ⟨hnext, u, hsplit, hu⟩ := skipValue_written ht hd he hskip
    by_cases hliteral : raw = asciiText "payload"
    · rw [if_pos hliteral] at h
      cases h
      exact .inl ⟨by simpa [Member.literal] using hliteral, u, hsplit, hu⟩
    · rw [if_neg hliteral, hnext] at h
      simp only at h
      split at h
      · cases h
      · next hcomma =>
        exact .inr ⟨by simpa [Member.literal] using hliteral, not_not.mp hcomma, h⟩

/-- **The scan gives the first member that is spelled `"payload"`.** -/
theorem payloadSpanFrom_members {fuel : Nat}
    (hms : Members ms t) (h : payloadSpanFrom fuel (t ++ chRBrace :: rest) = some (begin, stop)) :
    ∃ m, ms.find? Member.literal = some m ∧
      ∃ u, begin = m.text ++ u ++ stop ∧ (isContainer m.value = true → u = []) := by
  induction hms generalizing fuel with
  | @last m t hm =>
    cases fuel with
    | zero => cases h
    | succ fuel =>
      rcases payloadSpanFrom_member hm (.inr rfl) h with ⟨hliteral, hfound⟩ | ⟨-, hcomma, -⟩
      · exact ⟨m, by rw [List.find?_cons_of_pos hliteral], hfound⟩
      · exact absurd hcomma (by decide)
  | @more m ms t more hm hms ih =>
    cases fuel with
    | zero => cases h
    | succ fuel =>
      rw [List.append_assoc, List.cons_append] at h
      rcases payloadSpanFrom_member hm (.inl rfl) h with ⟨hliteral, hfound⟩ | ⟨hother, -, h⟩
      · exact ⟨m, by rw [List.find?_cons_of_pos hliteral], hfound⟩
      · rw [List.find?_cons_of_neg (by rw [hother]; exact Bool.false_ne_true)]
        exact ih h

theorem payloadSpan_source {line begin stop : Bytes}
    (hsource : SourceOf members line) (h : payloadSpan line = some (begin, stop)) :
    ∃ m, members.find? Member.literal = some m ∧
      ∃ u, begin = m.text ++ u ++ stop ∧ (isContainer m.value = true → u = []) := by
  unfold payloadSpan at h
  cases hsource with
  | @empty a w b ha hw hb =>
    have hskip : skipWs (a ++ (0x7b :: (w ++ [0x7d]) ++ b)) = 0x7b :: (w ++ [0x7d] ++ b) := by
      rw [skipWs_append ha]
      exact skipWs_cons (by decide) _
    rw [hskip] at h
    simp only at h
    split at h
    · cases h
    · generalize (a ++ (0x7b :: (w ++ [0x7d]) ++ b)).length = fuel at h
      cases fuel with
      | zero => cases h
      | succ fuel =>
        have hclose : skipWs (w ++ [0x7d] ++ b) = 0x7d :: b := by
          rw [List.append_assoc, skipWs_append hw]
          exact skipWs_cons (by decide) _
        have hstring : skipString (0x7d :: b) = none := by
          rw [skipString, if_neg (by decide)]
        simp only [payloadSpanFrom, hclose, hstring, bind, Option.bind_none] at h
        cases h
  | @members a t b ms ha hms hb =>
    have hskip : skipWs (a ++ (0x7b :: (t ++ [0x7d]) ++ b)) = 0x7b :: (t ++ 0x7d :: b) := by
      rw [skipWs_append ha, List.cons_append, List.append_assoc, List.singleton_append]
      exact skipWs_cons (by decide) _
    rw [hskip] at h
    simp only at h
    split at h
    · cases h
    · exact payloadSpanFrom_members hms h

end Scan

/-! ## The member in the tree -/

/-- The member is found under the key `payload` in the tree. -/
def Member.named (m : Member) : Bool := cString m.key == asciiText "payload"

theorem SourceOf.text (h : SourceOf members line)
    (hm : m ∈ members) : Derives (.value m.value) m.text := by
  cases h with
  | empty _ _ _ => cases hm
  | members _ hms _ => exact hms.text hm

theorem objectGet_source (members : List Member) :
    objectGet (.object (terminatedEntries (members.map Member.entry))) (asciiText "payload") =
      (members.find? Member.named).map fun m => m.value.terminated := by
  induction members with
  | nil => rfl
  | cons m members ih =>
    rw [List.map_cons, Member.entry, terminatedEntries, objectGet, List.find?_cons, List.find?_cons]
    cases hnamed : m.named with
    | true =>
      rw [Member.named] at hnamed
      simp [hnamed]
    | false =>
      rw [Member.named] at hnamed
      simp only [hnamed]
      exact ih

theorem parseLine_ok {record : Record} (h : parseLine line = .ok record) :
    ∃ entries begin stop, parse line = .ok (.object entries) ∧
      (objectGet (.object entries) (asciiText "payload")).any isContainer = true ∧
        payloadSpan line = some (begin, stop) ∧
          record.payload = begin.take (begin.length - stop.length) := by
  unfold parseLine at h
  split at h
  · cases h
  next root hparse =>
    split at h
    · next entries =>
      simp only at h
      split at h
      · split at h
        · next hcontainer =>
          split at h
          · cases h
          · split at h
            · cases h
            · split at h
              · cases h
              · next hspan =>
                cases h
                exact ⟨_, _, _, hparse, hcontainer, hspan, rfl⟩
        · cases h
      · cases h
    · cases h

/-- The payload is the source text of the member that the tree has under `payload`, and that is
an object or an array. -/
def PayloadOf (members : List Member) (payload : Bytes) : Prop :=
  ∃ m, members.find? Member.named = some m ∧ payload = m.text ∧ Text m.value payload ∧
    isContainer m.value = true

/-- The member in the tree has the same text as the one that is spelled `"payload"`. -/
def OneText (members : List Member) : Prop :=
  ∀ m l, members.find? Member.named = some m → members.find? Member.literal = some l →
    m.text = l.text

theorem isContainer_iff_head {v : Value} {t : Bytes} (h : Derives (.value v) t) :
    isContainer v = true ↔ t.head? = some chLBrace ∨ t.head? = some chLBracket := by
  cases h with
  | null => decide
  | true => decide
  | false => decide
  | number hnumber =>
    refine ⟨fun hv => absurd hv Bool.false_ne_true, fun hor => ?_⟩
    rcases hor with hhead | hhead
    · exact absurd rfl (number_inert hnumber _ (List.mem_of_mem_head? hhead)).1.2.1
    · exact absurd rfl (number_inert hnumber _ (List.mem_of_mem_head? hhead)).1.2.2.1
  | string _ =>
    refine ⟨fun hv => absurd hv Bool.false_ne_true, fun hor => ?_⟩
    rcases hor with hhead | hhead <;> exact absurd (Option.some.inj hhead) (by decide)
  | emptyArray _ => exact iff_of_true rfl (.inr rfl)
  | array _ => exact iff_of_true rfl (.inr rfl)
  | _ => exact iff_of_true rfl (.inl rfl)

theorem exists_source
    (h : parse line = .ok (.object entries)) : ∃ members, SourceOf members line := by
  obtain ⟨v, htext, hv⟩ := (parse_ok_iff line _).mp h
  cases v with
  | object entries =>
    obtain ⟨members, hsource, -⟩ := sourceOf_of_text htext
    exact ⟨members, hsource⟩
  | _ => cases hv

/-- **The player returns the payload of the tree exactly when the member in the tree and the one
that is spelled `"payload"` have one text.** -/
theorem payload_source_iff {line : Bytes} {record : Record} (h : parseLine line = .ok record) :
    (∃ members, SourceOf members line) ∧
      ∀ members, SourceOf members line → (PayloadOf members record.payload ↔ OneText members) := by
  obtain ⟨entries, begin, stop, hparse, hcontainer, hspan, hpayload⟩ := parseLine_ok h
  refine ⟨exists_source hparse, fun members hsource => ?_⟩
  -- the member in the tree
  have htree := (parse_ok_iff line _).mpr ⟨_, hsource.toText, rfl⟩
  rw [hparse, Value.terminated] at htree
  rw [Except.ok.inj htree, objectGet_source] at hcontainer
  cases hnamed : members.find? Member.named with
  | none =>
    rw [hnamed] at hcontainer
    cases hcontainer
  | some m =>
    rw [hnamed, Option.map_some, Option.any_some, isContainer_terminated] at hcontainer
    have hm := hsource.text (List.mem_of_find?_eq_some hnamed)
    have hhead := (isContainer_iff_head hm).mp hcontainer
    -- the member that the scan finds
    obtain ⟨l, hliteral, u, hsplit, hu⟩ := payloadSpan_source hsource hspan
    have hl := hsource.text (List.mem_of_find?_eq_some hliteral)
    have hreturned : record.payload = l.text ++ u := by
      rw [hpayload, hsplit, List.length_append, Nat.add_sub_cancel, List.take_left]
    have hne : l.text ≠ [] := by
      intro hnil
      rw [hnil] at hl
      exact absurd (hl.noneNext_ws [0x20] 0x20 rfl) (by decide)
    constructor
    · intro hof m' l' hm' hl'
      obtain ⟨m'', hm'', htext, -, -⟩ := hof
      obtain rfl : m = m' := Option.some.inj (hnamed.symm.trans hm')
      obtain rfl : m = m'' := Option.some.inj (hnamed.symm.trans hm'')
      obtain rfl : l = l' := Option.some.inj (hliteral.symm.trans hl')
      rw [hreturned] at htext
      rw [← htext, List.head?_append_of_ne_nil _ hne, ← isContainer_iff_head hl] at hhead
      rw [← htext, hu hhead, List.append_nil]
    · intro hone
      have hsame := hone m l hnamed hliteral
      rw [hsame, ← isContainer_iff_head hl] at hhead
      rw [hu hhead, List.append_nil, ← hsame] at hreturned
      refine ⟨m, hnamed, hreturned, ?_, hcontainer⟩
      rw [hreturned]
      exact item_of_derives hm

/-- A line that the recorder writes. -/
theorem payload_source_written :
    ∃ record, parseLine (lineText (emptyPayload [])) = .ok record ∧
      ∃ members, SourceOf members (lineText (emptyPayload [])) ∧
        (PayloadOf members record.payload ↔ OneText members) := by
  have hws : Ws [] := ws_nil
  have hevent : TextEvent (emptyPayload []) := by
    intro event hevent
    obtain ⟨cs, htext, -⟩ := (@plainKey_of_asciiKey (asciiText "READY") (by decide)).1
    exact ⟨cs, (Option.some.inj hevent).symm.trans htext⟩
  have hline := parseLine_line (emptyPayload_accepted hws) hevent (text_emptyPayload hws)
  rw [if_pos (by decide)] at hline
  obtain ⟨record, hparse, -⟩ := hline
  obtain ⟨⟨members, hsource⟩, hiff⟩ := payload_source_iff hparse
  exact ⟨record, hparse, members, hsource, hiff members hsource⟩

/-- A line with an escaped payload that is an object, and a literal one that is a number:
`{"kind":"interaction","ts":1,"p\u0061yload":{},"payload":1}`. -/
def escapedPayload : Bytes :=
  asciiText "\x7b\"kind\":\"interaction\",\"ts\":1,\"p\\u0061yload\":\x7b\x7d,\"payload\":1\x7d"

/-- **An escaped key is in the tree, and the bytes of another member are returned**: here they
are no object and no array. -/
theorem escaped_key_wins :
    ¬ ∀ line record, parseLine line = .ok record → ∀ members, SourceOf members line →
      PayloadOf members record.payload := by
  have hread : ((parseLine escapedPayload).toOption.map Record.payload) = some [0x31] := by
    decide +kernel
  intro hall
  cases hline : parseLine escapedPayload with
  | error status =>
    rw [hline] at hread
    cases hread
  | ok record =>
    rw [hline] at hread
    have hpayload : record.payload = [0x31] := Option.some.inj hread
    obtain ⟨entries, -, -, hparse, -⟩ := parseLine_ok hline
    obtain ⟨members, hsource⟩ := exists_source hparse
    obtain ⟨m, hm, htext, -, hcontainer⟩ := hall _ _ hline members hsource
    have hhead := (isContainer_iff_head (hsource.text (List.mem_of_find?_eq_some hm))).mp hcontainer
    rw [← htext, hpayload] at hhead
    exact absurd hhead (by decide)

end Dcc.Replay
