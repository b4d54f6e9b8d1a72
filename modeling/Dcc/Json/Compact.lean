import Dcc.Json.Exact

/-!
# Writing a tree as compact JSON

`dcc_command_registry_append_json_value` writes a tree without whitespace: a number as it
was spelled, a string with the shortest escapes, the members of an object in their order.
What it writes of a tree is one of the spellings of that tree, and the only one without
whitespace and long escapes.

* `Readable`: the trees that `dcc_json_parse` can return;
* `derives_appendJsonValue`: what is written of such a tree spells it;
* `item_cancel`: where two spellings of one value begin the same bytes and one of them is
  without whitespace around it, they are the same.
-/

namespace Dcc.Json

open Grammar

/-! ## The writer -/

/-- `"0123456789ABCDEF"[n]`. -/
def hexDigit (n : UInt8) : UInt8 := if n < 10 then 0x30 + n else 0x37 + n

/-- One byte of `dcc_command_json_append_escaped_string`. -/
def escapeByte (c : UInt8) : Bytes :=
  if c = chQuote then [chBackslash, chQuote]
  else if c = chBackslash then [chBackslash, chBackslash]
  else if c = 0x08 then [chBackslash, 0x62]
  else if c = 0x0c then [chBackslash, 0x66]
  else if c = 0x0a then [chBackslash, 0x6e]
  else if c = 0x0d then [chBackslash, 0x72]
  else if c = 0x09 then [chBackslash, 0x74]
  else if c < 0x20 then [chBackslash, 0x75, 0x30, 0x30, hexDigit (c >>> 4), hexDigit (c &&& 0x0f)]
  else [c]

/-- What `dcc_command_json_append_escaped_string` appends for a C string. -/
def appendEscapedString (value : Bytes) : Bytes :=
  chQuote :: (value.flatMap escapeByte ++ [chQuote])

/-- Texts with a comma between each two. -/
def joined : List Bytes → Bytes
  | [] => []
  | [t] => t
  | t :: u :: ts => t ++ chComma :: joined (u :: ts)

/-- A key, a colon and a text. -/
def memberText (key text : Bytes) : Bytes := chQuote :: (key ++ chQuote :: chColon :: text)

mutual

/-- What `dcc_command_registry_append_json_value` appends. -/
def appendJsonValue : Value → Bytes
  | .null => litNull
  | .bool boolean => if boolean then litTrue else litFalse
  | .number text => text
  | .string text => appendEscapedString text
  | .array items => chLBracket :: (joined (appendJsonItems items) ++ [chRBracket])
  | .object entries => chLBrace :: (joined (appendJsonEntries entries) ++ [chRBrace])

/-- The items of `dcc_command_registry_append_json_array`. -/
def appendJsonItems : List Value → List Bytes
  | [] => []
  | item :: items => appendJsonValue item :: appendJsonItems items

/-- The members of `dcc_command_registry_append_json_object`. -/
def appendJsonEntries : List (Bytes × Value) → List Bytes
  | [] => []
  | (key, value) :: entries =>
    memberText (key.flatMap escapeByte) (appendJsonValue value) :: appendJsonEntries entries

end

theorem appendJsonItems_eq_map (items : List Value) :
    appendJsonItems items = items.map appendJsonValue := by
  induction items with
  | nil => rfl
  | cons item items ih => rw [appendJsonItems, ih, List.map_cons]

theorem appendJsonEntries_eq_map (entries : List (Bytes × Value)) :
    appendJsonEntries entries = entries.map fun entry =>
      memberText (entry.1.flatMap escapeByte) (appendJsonValue entry.2) := by
  induction entries with
  | nil => rfl
  | cons entry entries ih => rw [appendJsonEntries, ih, List.map_cons]

theorem terminatedItems_eq_map (items : List Value) :
    terminatedItems items = items.map Value.terminated := by
  induction items with
  | nil => rfl
  | cons item items ih => rw [terminatedItems, ih, List.map_cons]

theorem terminatedEntries_eq_map (entries : List (Bytes × Value)) :
    terminatedEntries entries = entries.map fun entry =>
      (cString entry.1, entry.2.terminated) := by
  induction entries with
  | nil => rfl
  | cons entry entries ih => rw [terminatedEntries, ih, List.map_cons]

/-! ## Escapes -/

/-- A C string that is UTF-8. -/
def PlainText (text : Bytes) : Prop := ∃ cs, text = utf8 cs ∧ ∀ c ∈ cs, c.toNat ≠ 0

variable {n : Nat}

theorem hex4_of_control (hn : n < 0x20) :
    Hex4 [0x30, 0x30, hexDigit (UInt8.ofNat n >>> 4), hexDigit (UInt8.ofNat n &&& 0x0f)] n := by
  have hall : ∀ n < 0x20, parseHex4At
      [0x30, 0x30, hexDigit (UInt8.ofNat n >>> 4), hexDigit (UInt8.ofNat n &&& 0x0f)] =
        some n := by decide
  exact parseHex4At_four.mp (hall n hn)

theorem escapeByte_plain {b : UInt8} (hctl : 0x20 ≤ b.toNat) (hquote : b.toNat ≠ 0x22)
    (hback : b.toNat ≠ 0x5c) : escapeByte b = [b] := by
  have hne : ∀ k : UInt8, b.toNat ≠ k.toNat → b ≠ k := fun k hk h => hk (h ▸ rfl)
  have hlt : ¬ b < 0x20 := by
    rw [UInt8.lt_iff_toNat_lt]
    exact Nat.not_lt.mpr hctl
  rw [escapeByte, if_neg (hne chQuote hquote), if_neg (hne chBackslash hback),
    if_neg (hne 8 (show b.toNat ≠ 8 by omega)), if_neg (hne 12 (show b.toNat ≠ 12 by omega)),
    if_neg (hne 10 (show b.toNat ≠ 10 by omega)), if_neg (hne 13 (show b.toNat ≠ 13 by omega)),
    if_neg (hne 9 (show b.toNat ≠ 9 by omega)), if_neg hlt]

theorem escapeByte_control (hn : n < 0x20) (hshort : n ≠ 8 ∧ n ≠ 12 ∧ n ≠ 10 ∧ n ≠ 13 ∧ n ≠ 9) :
    escapeByte (UInt8.ofNat n) = [chBackslash, 0x75, 0x30, 0x30,
      hexDigit (UInt8.ofNat n >>> 4), hexDigit (UInt8.ofNat n &&& 0x0f)] := by
  have hall : ∀ n < 0x20, n ≠ 8 ∧ n ≠ 12 ∧ n ≠ 10 ∧ n ≠ 13 ∧ n ≠ 9 →
      escapeByte (UInt8.ofNat n) = [chBackslash, 0x75, 0x30, 0x30,
        hexDigit (UInt8.ofNat n >>> 4), hexDigit (UInt8.ofNat n &&& 0x0f)] := by decide
  exact hall n hn hshort

theorem spells_short {c : Char} {esc : UInt8} (hc : c.toNat = n)
    (hesc : (esc, Char.ofNat n) ∈ escapes) : Spells [chBackslash, esc] c := by
  have hchar : c = Char.ofNat n := by rw [← hc, Char.ofNat_toNat]
  rw [hchar]
  exact Spells.short hesc

theorem spells_escape (c : Char) : Spells ((encode c).flatMap escapeByte) c := by
  by_cases hplain : 0x20 ≤ c.toNat ∧ c.toNat ≠ 0x22 ∧ c.toNat ≠ 0x5c
  · obtain ⟨hctl, hquote, hback⟩ := hplain
    have hbytes := Plain.byte ⟨hctl, hquote, hback⟩
    have hsame : (encode c).flatMap escapeByte = encode c := by
      calc (encode c).flatMap escapeByte = (encode c).flatMap fun b => [b] :=
            List.flatMap_congr fun b hb => by
              obtain ⟨h₁, h₂, h₃⟩ := hbytes b hb
              exact escapeByte_plain h₁ h₂ h₃
        _ = encode c := by simp
    rw [hsame]
    exact Spells.plain hctl hquote hback
  · have hlow : ¬ 0x80 ≤ c.toNat := by omega
    rw [encode_low hlow, List.flatMap_singleton]
    by_cases hshort : c.toNat = 0x22 ∨ c.toNat = 0x5c ∨ c.toNat = 8 ∨ c.toNat = 12 ∨
        c.toNat = 10 ∨ c.toNat = 13 ∨ c.toNat = 9
    · rcases hshort with h | h | h | h | h | h | h <;>
        · rw [h]
          exact spells_short h (by decide)
    · rw [escapeByte_control (by omega) (by omega)]
      exact Spells.unicode (hex4_of_control (by omega)) rfl

theorem spells_of_escape {f : UInt8 → Bytes} (hplain : ∀ b, ¬ b < 0x20 → f b = escapeByte b)
    (hctl : ∀ n < 0x20, f (UInt8.ofNat n) = escapeByte (UInt8.ofNat n) ∨
      ∃ d, f (UInt8.ofNat n) = chBackslash :: 0x75 :: d ∧ Hex4 d n) (c : Char) :
    Spells ((encode c).flatMap f) c := by
  have hwritten := spells_escape c
  by_cases hlow : c.toNat < 0x20
  · rw [encode_low (by omega), List.flatMap_singleton] at hwritten ⊢
    rcases hctl c.toNat hlow with hsame | ⟨d, hdigits, hd⟩
    · rwa [hsame]
    · rw [hdigits]
      exact Spells.unicode hd rfl
  · have hbyte : ∀ b ∈ encode c, ¬ b < 0x20 := by
      intro b hb hlt
      have hlt : b.toNat < 0x20 := UInt8.lt_iff_toNat_lt.mp hlt
      by_cases hhigh : 0x80 ≤ c.toNat
      · have := encode_high hhigh b hb
        omega
      · rw [encode_low hhigh, List.mem_singleton] at hb
        rw [hb, toNat_ofNat_of_lt (by omega)] at hlt
        omega
    rwa [List.flatMap_congr fun b hb => hplain b (hbyte b hb)]

theorem chars_escape (cs : List Char) : Chars ((utf8 cs).flatMap escapeByte) cs := by
  induction cs with
  | nil => exact Chars.nil
  | cons c cs ih =>
    rw [utf8_cons, List.flatMap_append]
    exact Chars.cons (spells_escape c) ih

/-! ## Trees as the parser returns them -/

/-- The trees whose texts are C strings in UTF-8 and whose numbers are JSON numbers. -/
inductive Readable : Value → Prop
  | null : Readable .null
  | bool (boolean : Bool) : Readable (.bool boolean)
  | number {text : Bytes} (h : Number text) : Readable (.number text)
  | string {text : Bytes} (h : PlainText text) : Readable (.string text)
  | array {items : List Value} (h : ∀ item ∈ items, Readable item) : Readable (.array items)
  | object {entries : List (Bytes × Value)} (hkey : ∀ entry ∈ entries, PlainText entry.1)
      (h : ∀ entry ∈ entries, Readable entry.2) : Readable (.object entries)

theorem ne_zero_of_mem_encode {c : Char} (hc : c.toNat ≠ 0) {b : UInt8} (hb : b ∈ encode c) :
    b ≠ 0 := by
  intro hzero
  subst hzero
  by_cases hhigh : 0x80 ≤ c.toNat
  · exact absurd (encode_high hhigh 0 hb) (by decide)
  · rw [encode_low hhigh, List.mem_singleton] at hb
    have hnat : (0 : UInt8).toNat = c.toNat := by
      rw [hb, toNat_ofNat_of_lt (by omega)]
    exact hc hnat.symm

theorem cString_utf8 (cs : List Char) :
    cString (utf8 cs) = utf8 (cs.takeWhile fun c => c.toNat ≠ 0) := by
  induction cs with
  | nil => rfl
  | cons c cs ih =>
    by_cases hc : c.toNat = 0
    · have hbyte : encode c = [0] := by
        rw [encode_low (by omega), hc]
        rfl
      rw [utf8_cons, hbyte, List.takeWhile_cons_of_neg (by simp [hc])]
      rfl
    · have hpass : ∀ b ∈ encode c, decide (b ≠ 0) = true := by
        intro b hb
        exact decide_eq_true (ne_zero_of_mem_encode hc hb)
      rw [List.takeWhile_cons_of_pos (by simp [hc]), utf8_cons, utf8_cons, cString,
        List.takeWhile_append_of_pos hpass, ← ih, cString]

theorem plainText_cString (cs : List Char) : PlainText (cString (utf8 cs)) := by
  refine ⟨_, cString_utf8 cs, fun c hc => ?_⟩
  simpa using List.mem_takeWhile_imp hc

theorem PlainText.cString_eq {text : Bytes} (h : PlainText text) : cString text = text := by
  obtain ⟨cs, rfl, hcs⟩ := h
  have hall : (cs.takeWhile fun c => decide (c.toNat ≠ 0)) = cs := by
    rw [List.takeWhile_eq_self_iff]
    intro c hc
    exact decide_eq_true (hcs c hc)
  rw [cString_utf8, hall]

/-- The values of a phrase, as C strings hold them, are readable. -/
def Grammar.Phrase.Readable : Phrase → Prop
  | .value v => Json.Readable v.terminated
  | .item v => Json.Readable v.terminated
  | .items vs => ∀ v ∈ vs, Json.Readable v.terminated
  | .member key v => PlainText (cString key) ∧ Json.Readable v.terminated
  | .members entries => ∀ entry ∈ entries,
      PlainText (cString entry.1) ∧ Json.Readable entry.2.terminated

variable {t : Bytes}

theorem Grammar.Derives.readable {ph : Phrase} (h : Derives ph t) : ph.Readable := by
  induction h with
  | null => exact Json.Readable.null
  | true => exact Json.Readable.bool _
  | false => exact Json.Readable.bool _
  | number h => exact Json.Readable.number h
  | string h => exact Json.Readable.string (plainText_cString _)
  | emptyArray _ => exact Json.Readable.array fun item hitem => nomatch hitem
  | array _ ih =>
    refine Json.Readable.array fun item hitem => ?_
    rw [terminatedItems_eq_map] at hitem
    obtain ⟨v, hv, rfl⟩ := List.mem_map.mp hitem
    exact ih v hv
  | emptyObject _ =>
    exact Json.Readable.object (fun entry hentry => nomatch hentry)
      (fun entry hentry => nomatch hentry)
  | object _ ih =>
    rw [Phrase.Readable, Value.terminated, terminatedEntries_eq_map]
    refine Json.Readable.object (fun entry hentry => ?_) (fun entry hentry => ?_)
    · obtain ⟨e, he, rfl⟩ := List.mem_map.mp hentry
      exact (ih e he).1
    · obtain ⟨e, he, rfl⟩ := List.mem_map.mp hentry
      exact (ih e he).2
  | item _ _ _ ih => exact ih
  | lastItem _ ih =>
    intro v hv
    rw [List.mem_singleton.mp hv]
    exact ih
  | moreItems _ _ ih ihMore =>
    intro v hv
    rcases List.mem_cons.mp hv with rfl | hmem
    · exact ih
    · exact ihMore v hmem
  | member _ _ _ _ ih => exact ⟨plainText_cString _, ih⟩
  | lastMember _ ih =>
    intro entry hentry
    rw [List.mem_singleton.mp hentry]
    exact ih
  | moreMembers _ _ ih ihMore =>
    intro entry hentry
    rcases List.mem_cons.mp hentry with rfl | hmem
    · exact ih
    · exact ihMore entry hmem

variable {v : Value}

theorem Readable.terminated_eq (h : Readable v) : v.terminated = v := by
  induction h with
  | null => rfl
  | bool _ => rfl
  | number _ => rfl
  | string h => rw [Value.terminated, h.cString_eq]
  | @array items _ ih =>
    rw [Value.terminated, terminatedItems_eq_map, List.map_congr_left ih, List.map_id']
  | @object entries hkey _ ih =>
    have hsame : ∀ entry ∈ entries, (cString entry.1, entry.2.terminated) = entry := by
      intro entry hentry
      rw [(hkey entry hentry).cString_eq, ih entry hentry]
    rw [Value.terminated, terminatedEntries_eq_map, List.map_congr_left hsame, List.map_id']

/-! ## What is written of a readable tree spells it -/

variable {α : Type} {xs : List α}

theorem derives_joined_items (value : α → Value) (text : α → Bytes)
    (hne : xs ≠ []) (h : ∀ x ∈ xs, Derives (.item (value x)) (text x)) :
    Derives (.items (xs.map value)) (joined (xs.map text)) := by
  induction xs with
  | nil => exact absurd rfl hne
  | cons x xs ih =>
    cases xs with
    | nil => exact Derives.lastItem (h x List.mem_cons_self)
    | cons y ys =>
      have hrest := ih (by simp) fun z hz => h z (List.mem_cons_of_mem _ hz)
      exact Derives.moreItems (h x List.mem_cons_self) hrest

theorem derives_joined_members (entry : α → Bytes × Value) (text : α → Bytes) (hne : xs ≠ [])
    (h : ∀ x ∈ xs, Derives (.member (entry x).1 (entry x).2) (text x)) :
    Derives (.members (xs.map entry)) (joined (xs.map text)) := by
  induction xs with
  | nil => exact absurd rfl hne
  | cons x xs ih =>
    cases xs with
    | nil => exact Derives.lastMember (h x List.mem_cons_self)
    | cons y ys =>
      have hrest := ih (by simp) fun z hz => h z (List.mem_cons_of_mem _ hz)
      exact Derives.moreMembers (h x List.mem_cons_self) hrest

theorem derives_array (value : α → Value) (text : α → Bytes)
    (h : ∀ x ∈ xs, Derives (.item (value x)) (text x)) :
    Derives (.value (.array (xs.map value)))
      (chLBracket :: (joined (xs.map text) ++ [chRBracket])) := by
  by_cases hne : xs = []
  · subst hne
    exact Derives.emptyArray ws_nil
  · exact Derives.array (derives_joined_items value text hne h)

theorem derives_object (entry : α → Bytes × Value) (text : α → Bytes)
    (h : ∀ x ∈ xs, Derives (.member (entry x).1 (entry x).2) (text x)) :
    Derives (.value (.object (xs.map entry)))
      (chLBrace :: (joined (xs.map text) ++ [chRBrace])) := by
  by_cases hne : xs = []
  · subst hne
    exact Derives.emptyObject ws_nil
  · exact Derives.object (derives_joined_members entry text hne h)

theorem item_of_derives (h : Derives (.value v) t) :
    Derives (.item v) t := by
  have hitem := Derives.item ws_nil h ws_nil
  rwa [List.nil_append, List.append_nil] at hitem

theorem derives_memberText {key : Bytes} (hkey : PlainText key) (h : Derives (.item v) t) :
    Derives (.member key v) (memberText (key.flatMap escapeByte) t) := by
  obtain ⟨cs, rfl, _⟩ := hkey
  exact Derives.member ws_nil (chars_escape cs) ws_nil h

/-- **What is written of a readable tree spells it.** -/
theorem derives_appendJsonValue (h : Readable v) :
    Derives (.value v) (appendJsonValue v) := by
  induction h with
  | null => exact Derives.null
  | bool boolean =>
    cases boolean with
    | true => exact Derives.true
    | false => exact Derives.false
  | number h => exact Derives.number h
  | string h =>
    obtain ⟨cs, rfl, _⟩ := h
    exact Derives.string (chars_escape cs)
  | @array items _ ih =>
    rw [appendJsonValue, appendJsonItems_eq_map]
    have harray := derives_array id appendJsonValue fun item hitem =>
      item_of_derives (ih item hitem)
    rwa [List.map_id] at harray
  | @object entries hkey _ ih =>
    rw [appendJsonValue, appendJsonEntries_eq_map]
    have hobject := derives_object id (fun entry : Bytes × Value =>
        memberText (entry.1.flatMap escapeByte) (appendJsonValue entry.2))
      fun entry hentry => derives_memberText (hkey entry hentry)
        (item_of_derives (ih entry hentry))
    rwa [List.map_id] at hobject

/-! ## Spellings without whitespace are determined by their value -/

theorem not_ws_of_digit {c : UInt8} (h : isDigit c = true) : isWs c = false := by
  cases hws : isWs c with
  | false => rfl
  | true =>
    rcases isWs_iff.mp hws with rfl | rfl | rfl | rfl <;> exact absurd h (by decide)

theorem Grammar.Derives.noneNext_ws (h : Derives (.value v) t)
    (rest : Bytes) : NoneNext isWs (t ++ rest) := by
  cases h with
  | null => exact NoneNext.cons (by decide) _
  | true => exact NoneNext.cons (by decide) _
  | false => exact NoneNext.cons (by decide) _
  | number h =>
    obtain @⟨minus, int, frac, exp, hminus, hint, hfrac, hexp⟩ := h
    rcases hminus with rfl | rfl
    · obtain ⟨c, hhead, hc⟩ := @head_of_int int (frac ++ exp ++ rest) hint
      intro d hd
      simp only [List.nil_append, List.append_assoc] at hhead hd
      rw [hhead] at hd
      cases hd
      exact not_ws_of_digit hc
    · exact NoneNext.cons (by decide) _
  | _ => exact NoneNext.cons (by decide) _

/-- **Two spellings of one value, one of them without whitespace around it.**  Where the
bytes are the same up to a byte that ends both, so are the spellings. -/
theorem item_cancel {t u r s : Bytes} {c d : UInt8} (ht : Derives (.item v) t)
    (hu : Derives (.value v) u) (hc : isNumberChar c = false) (hd : isNumberChar d = false)
    (hws : isWs d = false) (heq : t ++ c :: r = u ++ d :: s) : t = u ∧ c :: r = d :: s := by
  cases ht with
  | @item a t b _ ha ht hb =>
    have hfirst : a ++ (t ++ (b ++ c :: r)) = u ++ d :: s := by simpa using heq
    -- the second spelling starts without whitespace, so the first one does
    have hskip : t ++ (b ++ c :: r) = u ++ d :: s := by
      have hdrop := congrArg skipWs hfirst
      rwa [skipWs_append ha, skipWs, skipWs, (ht.noneNext_ws _).dropWhile,
        (hu.noneNext_ws _).dropWhile] at hdrop
    have hnil : a = [] := by
      rw [← hskip] at hfirst
      exact List.self_eq_append_left.mp hfirst.symm
    -- both are read from the same bytes, and leave the same bytes
    have hreadT := ht.reads _ (b ++ c :: r) (noneNext_after_ws hb (NoneNext.cons hc r))
      (Nat.le_refl _)
    have hreadU := hu.reads _ (d :: s) (NoneNext.cons hd s) (Nat.le_refl _)
    rw [hskip, hreadU] at hreadT
    have hleft : d :: s = b ++ c :: r := congrArg Prod.snd (Option.some.inj hreadT)
    have hbody : t = u := by
      rw [hleft] at hskip
      exact List.append_cancel_right hskip
    cases b with
    | nil => exact ⟨by simp [hnil, hbody], hleft.symm⟩
    | cons e b =>
      rw [List.cons_append] at hleft
      have hsame : d = e := (List.cons.inj hleft).1
      have hspace := isWs_iff.mpr (hb e List.mem_cons_self)
      rw [← hsame, hws] at hspace
      cases hspace

end Dcc.Json
