import Dcc.Json.Numbers
import Dcc.Json.Strings
import Dcc.Json.Parse
import Dcc.Json.Skip

/-!
# The DOM parser reads exactly JSON

`dcc_json_parse` is the stage-one scan, one value and the test for trailing
bytes.  It is held to the grammar in both directions.

* `parse_sound_fuel`: by induction on the fuel, what each function of the parser
  consumes is derived by the grammar;
* `Derives.reads`: by induction on the derivation, what the grammar derives is
  read back with the fuel of the entry;
* `stage1Loop_eq`, `Derives.scan`: the scan of sixteen bytes at a time is the
  scan byte by byte, and it passes every derived text;
* `parse_iff`: the entry succeeds exactly on JSON texts.
-/

namespace Dcc.Json

open Grammar

/-! ## Whitespace -/

variable {c : UInt8}

theorem isWs_iff : isWs c = true ↔ c = 0x20 ∨ c = 0x09 ∨ c = 0x0a ∨ c = 0x0d := by
  simp [isWs, or_assoc]

theorem Grammar.Ws.append {a b : Bytes} (ha : Ws a) (hb : Ws b) : Ws (a ++ b) := by
  intro c hc
  rcases List.mem_append.mp hc with h | h
  · exact ha c h
  · exact hb c h

theorem ws_nil : Ws [] := by
  intro c hc
  cases hc

theorem exists_ws (cur : Bytes) : ∃ a, Ws a ∧ cur = a ++ skipWs cur := by
  refine ⟨cur.takeWhile isWs, fun c hc => ?_, List.takeWhile_append_dropWhile.symm⟩
  exact isWs_iff.mp (List.mem_takeWhile_imp hc)

theorem skipWs_append {a : Bytes} (ha : Ws a) (rest : Bytes) : skipWs (a ++ rest) = skipWs rest :=
  List.dropWhile_append_of_pos fun c hc => isWs_iff.mpr (ha c hc)

theorem skipWs_cons (hc : isWs c = false) (p : Bytes) : skipWs (c :: p) = c :: p :=
  (NoneNext.cons hc p).dropWhile

variable {vs : List Value}

theorem Grammar.Derives.ws_items {w t : Bytes} (hw : Ws w)
    (h : Derives (.items vs) t) : Derives (.items vs) (w ++ t) := by
  have hitem : ∀ {v : Value} {t : Bytes}, Derives (.item v) t → Derives (.item v) (w ++ t) := by
    intro v t h
    cases h with
    | @item a t b _ ha h hb =>
      rw [← List.append_assoc]
      exact Derives.item (hw.append ha) h hb
  cases h with
  | lastItem h => exact Derives.lastItem (hitem h)
  | moreItems h hrest =>
    rw [← List.append_assoc]
    exact Derives.moreItems (hitem h) hrest

variable {entries : List (Bytes × Value)}

theorem Grammar.Derives.ws_members {w t : Bytes} (hw : Ws w)
    (h : Derives (.members entries) t) : Derives (.members entries) (w ++ t) := by
  have hmember : ∀ {key : Bytes} {v : Value} {t : Bytes}, Derives (.member key v) t →
      Derives (.member key v) (w ++ t) := by
    intro key v t h
    cases h with
    | @member a raw b t cs _ ha hkey hb h =>
      rw [← List.append_assoc]
      exact Derives.member (hw.append ha) hkey hb h
  cases h with
  | lastMember h => exact Derives.lastMember (hmember h)
  | moreMembers h hrest =>
    rw [← List.append_assoc]
    exact Derives.moreMembers (hmember h) hrest

/-! ## What is read is derived -/

theorem parseLiteral_sound {cur literal rest : Bytes} {json v : Value}
    (h : parseLiteral cur literal json = some (v, rest)) : v = json ∧ cur = literal ++ rest := by
  obtain ⟨r, hr, heq⟩ := Option.map_eq_some_iff.mp h
  cases heq
  exact ⟨rfl, matchLiteral_eq_append hr⟩

variable {v : Value}

variable {cur rest : Bytes}

theorem parseNumber_sound (h : parseNumber cur = some (v, rest)) :
    ∃ t, Derives (.value v) t ∧ cur = t ++ rest := by
  obtain ⟨⟨text, integer, r⟩, hspan, heq⟩ := Option.map_eq_some_iff.mp h
  cases heq
  obtain ⟨hcur, hnumber⟩ := parseNumberSpan_sound hspan
  exact ⟨text, Derives.number hnumber, hcur⟩

theorem parseString_sound (h : parseString cur = some (v, rest)) :
    ∃ t, Derives (.value v) t ∧ cur = t ++ rest := by
  obtain ⟨⟨text, r⟩, hstring, heq⟩ := Option.map_eq_some_iff.mp h
  cases heq
  obtain ⟨raw, cs, rfl, hchars, rfl⟩ := parseStringArena_sound hstring
  refine ⟨_, Derives.string hchars, ?_⟩
  simp

variable {d : UInt8}

theorem item_of_value {p r q t : Bytes} (ht : Derives (.value v) t)
    (hp : skipWs p = t ++ r) (hr : skipWs r = d :: q) :
    ∃ u, Derives (.item v) u ∧ p = u ++ d :: q := by
  obtain ⟨a, ha, hpa⟩ := exists_ws p
  obtain ⟨b, hb, hrb⟩ := exists_ws r
  refine ⟨a ++ (t ++ b), Derives.item ha ht hb, ?_⟩
  rw [hpa, hp, hrb, hr]
  simp only [List.append_assoc]

/-- **What the parser consumes is derived.**  The loops are read from the items
or members pushed so far. -/
theorem parse_sound_fuel (fuel : Nat) :
    (∀ cur v rest, parseValueFuel fuel cur = some (v, rest) →
      ∃ t, Derives (.value v) t ∧ skipWs cur = t ++ rest) ∧
    (∀ p v rest, parseObjectFuel fuel p = some (v, rest) →
      ∃ t, Derives (.value v) (chLBrace :: t) ∧ p = t ++ rest) ∧
    (∀ cur entries v rest, parseMembersFuel fuel cur entries = some (v, rest) →
      ∃ new t, v = .object (entries ++ new) ∧ Derives (.members new) t ∧
        cur = t ++ chRBrace :: rest) ∧
    (∀ p v rest, parseArrayFuel fuel p = some (v, rest) →
      ∃ t, Derives (.value v) (chLBracket :: t) ∧ p = t ++ rest) ∧
    (∀ cur items v rest, parseItemsFuel fuel cur items = some (v, rest) →
      ∃ new t, v = .array (items ++ new) ∧ Derives (.items new) t ∧
        cur = t ++ chRBracket :: rest) := by
  induction fuel with
  | zero => refine ⟨?_, ?_, ?_, ?_, ?_⟩ <;> intros <;> contradiction
  | succ fuel ih =>
    obtain ⟨ihValue, ihObject, ihMembers, ihArray, ihItems⟩ := ih
    refine ⟨fun cur v rest h => ?_, fun p v rest h => ?_, fun cur entries v rest h => ?_,
      fun p v rest h => ?_, fun cur items v rest h => ?_⟩
    · simp only [parseValueFuel] at h
      cases hcur : skipWs cur with
      | nil => rw [hcur] at h; cases h
      | cons c p =>
        simp only [hcur] at h
        split_ifs at h with hobject harray hstring hnumber htrue hfalse hnull
        · obtain ⟨t, ht, rfl⟩ := ihObject p v rest h
          exact ⟨c :: t, hobject ▸ ht, rfl⟩
        · obtain ⟨t, ht, rfl⟩ := ihArray p v rest h
          exact ⟨c :: t, harray ▸ ht, rfl⟩
        · exact parseString_sound h
        · exact parseNumber_sound h
        · obtain ⟨rfl, hp⟩ := parseLiteral_sound h
          exact ⟨litTrue, Derives.true, hp⟩
        · obtain ⟨rfl, hp⟩ := parseLiteral_sound h
          exact ⟨litFalse, Derives.false, hp⟩
        · obtain ⟨rfl, hp⟩ := parseLiteral_sound h
          exact ⟨litNull, Derives.null, hp⟩
    · obtain ⟨w, hw, hp⟩ := exists_ws p
      simp only [parseObjectFuel] at h
      split_ifs at h with hclose
      · cases h
        refine ⟨w ++ [chRBrace], Derives.emptyObject hw, ?_⟩
        rw [List.append_assoc, List.singleton_append, ← eq_cons_of_head hclose]
        exact hp
      · obtain ⟨new, t, rfl, ht, hcur⟩ := ihMembers _ _ _ _ h
        refine ⟨w ++ t ++ [chRBrace], Derives.object (Derives.ws_members hw ht), ?_⟩
        rw [hp, hcur]
        simp only [List.append_assoc, List.singleton_append]
    · obtain ⟨⟨key, afterKey⟩, hkey, h⟩ := Option.bind_eq_some_iff.mp h
      obtain ⟨raw, cs, rfl, hchars, rfl⟩ := parseStringArena_sound hkey
      cases hcolon : skipWs afterKey with
      | nil => simp only [hcolon] at h; cases h
      | cons c p =>
        simp only [hcolon] at h
        obtain ⟨b, hb, hafter⟩ := exists_ws afterKey
        split_ifs at h with hne
        rw [not_not] at hne
        subst hne
        obtain ⟨⟨item, r⟩, hvalue, hnext⟩ := Option.bind_eq_some_iff.mp h
        obtain ⟨t, ht, hpt⟩ := ihValue _ _ _ hvalue
        cases hws : skipWs r with
        | nil => simp only [hws] at hnext; cases hnext
        | cons d q =>
          simp only [hws] at hnext
          obtain ⟨u, hu, rfl⟩ := item_of_value ht hpt hws
          have hmember := Derives.member ws_nil hchars hb hu
          rw [List.nil_append] at hmember
          have hcur : chQuote :: (raw ++ chQuote :: afterKey) =
              chQuote :: (raw ++ chQuote :: (b ++ chColon :: u)) ++ d :: q := by
            rw [hafter, hcolon]
            simp only [List.cons_append, List.append_assoc]
          rw [hcur]
          split_ifs at hnext with hclose hcomma
          · cases hnext
            subst hclose
            exact ⟨_, _, rfl, Derives.lastMember hmember, rfl⟩
          · rw [not_not] at hcomma
            subst hcomma
            obtain ⟨new, t', rfl, ht', hq⟩ := ihMembers _ _ _ _ hnext
            obtain ⟨w, hw, hqw⟩ := exists_ws q
            refine ⟨_, _, ?_, Derives.moreMembers hmember (Derives.ws_members hw ht'), ?_⟩
            · rw [List.append_assoc, List.singleton_append]
            · rw [hqw, hq]
              simp only [List.cons_append, List.append_assoc]
    · obtain ⟨w, hw, hp⟩ := exists_ws p
      simp only [parseArrayFuel] at h
      split_ifs at h with hclose
      · cases h
        refine ⟨w ++ [chRBracket], Derives.emptyArray hw, ?_⟩
        rw [List.append_assoc, List.singleton_append, ← eq_cons_of_head hclose]
        exact hp
      · obtain ⟨new, t, rfl, ht, hcur⟩ := ihItems _ _ _ _ h
        refine ⟨w ++ t ++ [chRBracket], Derives.array (Derives.ws_items hw ht), ?_⟩
        rw [hp, hcur]
        simp only [List.append_assoc, List.singleton_append]
    · obtain ⟨⟨item, r⟩, hvalue, hnext⟩ := Option.bind_eq_some_iff.mp h
      obtain ⟨t, ht, hcur⟩ := ihValue _ _ _ hvalue
      cases hws : skipWs r with
      | nil => simp only [hws] at hnext; cases hnext
      | cons d q =>
        simp only [hws] at hnext
        obtain ⟨u, hu, rfl⟩ := item_of_value ht hcur hws
        split_ifs at hnext with hclose hcomma
        · cases hnext
          subst hclose
          exact ⟨_, _, rfl, Derives.lastItem hu, rfl⟩
        · rw [not_not] at hcomma
          subst hcomma
          obtain ⟨new, t', rfl, ht', hq⟩ := ihItems _ _ _ _ hnext
          obtain ⟨w, hw, hqw⟩ := exists_ws q
          refine ⟨_, _, ?_, Derives.moreItems hu (Derives.ws_items hw ht'), ?_⟩
          · rw [List.append_assoc, List.singleton_append]
          · rw [hqw, hq]
            simp only [List.cons_append, List.append_assoc]

/-! ## What is derived is read -/

theorem parseValueFuel_skipWs (fuel : Nat) (cur : Bytes) :
    parseValueFuel fuel (skipWs cur) = parseValueFuel fuel cur := by
  cases fuel with
  | zero => rfl
  | succ fuel => simp only [parseValueFuel, skipWs_skipWs]

theorem parseItemsFuel_skipWs (fuel : Nat) (cur : Bytes) (items : List Value) :
    parseItemsFuel fuel (skipWs cur) items = parseItemsFuel fuel cur items := by
  cases fuel with
  | zero => rfl
  | succ fuel => simp only [parseItemsFuel, parseValueFuel_skipWs]

theorem parseValueFuel_cons (hc : isWs c = false) (fuel : Nat) (p : Bytes) :
    parseValueFuel (fuel + 1) (c :: p) = if c = chLBrace then parseObjectFuel fuel p
      else if c = chLBracket then parseArrayFuel fuel p
      else if c = chQuote then parseString (c :: p)
      else if c = chMinus ∨ isDigit c then parseNumber (c :: p)
      else if c = 0x74 then parseLiteral (c :: p) litTrue (.bool true)
      else if c = 0x66 then parseLiteral (c :: p) litFalse (.bool false)
      else if c = 0x6e then parseLiteral (c :: p) litNull .null
      else none := by
  simp only [parseValueFuel, skipWs_cons hc]

theorem parseItemsFuel_close {cur : Bytes} (h : (skipWs cur).head? = some chRBracket) (fuel : Nat)
    (items : List Value) : parseItemsFuel fuel cur items = none := by
  cases fuel with
  | zero => rfl
  | succ fuel =>
    have hvalue : parseValueFuel fuel cur = none := by
      rw [← parseValueFuel_skipWs, eq_cons_of_head h]
      cases fuel with
      | zero => rfl
      | succ fuel =>
        rw [parseValueFuel_cons (by decide)]
        rfl
    rw [parseItemsFuel, hvalue]
    rfl

theorem parseMembersFuel_close {cur : Bytes} (h : cur.head? = some chRBrace) (fuel : Nat)
    (entries : List (Bytes × Value)) : parseMembersFuel fuel cur entries = none := by
  cases fuel with
  | zero => rfl
  | succ fuel =>
    have hkey : parseStringArena cur = none := by
      rw [eq_cons_of_head h]
      rfl
    rw [parseMembersFuel, hkey]
    rfl

theorem parseItemsFuel_round {fuel : Nat} {cur r q : Bytes}
    (hvalue : parseValueFuel fuel cur = some (v, r)) (hr : skipWs r = d :: q)
    (items : List Value) :
    parseItemsFuel (fuel + 1) cur items = if d = chRBracket then some (.array (items ++ [v]), q)
      else if d ≠ chComma then none
      else parseItemsFuel fuel (skipWs q) (items ++ [v]) := by
  simp only [parseItemsFuel, hvalue, Option.bind_some, hr]

theorem parseMembersFuel_round {fuel : Nat} {cur key s p r q : Bytes}
    (hkey : parseStringArena cur = some (key, s)) (hcolon : skipWs s = chColon :: p)
    (hvalue : parseValueFuel fuel p = some (v, r)) (hr : skipWs r = d :: q)
    (entries : List (Bytes × Value)) :
    parseMembersFuel (fuel + 1) cur entries =
      if d = chRBrace then some (.object (entries ++ [(key, v)]), q)
      else if d ≠ chComma then none
      else parseMembersFuel fuel (skipWs q) (entries ++ [(key, v)]) := by
  simp only [parseMembersFuel, hkey, hcolon, hvalue, hr, Option.bind_some, ne_eq,
    not_true_eq_false, if_false]

/-- What the parser makes of a phrase when it has the fuel of `parseFuel`.  A
member leaves the cursor of its parts open, as the loop reads them. -/
def Reads : Phrase → Bytes → Prop
  | .value v, t => ∀ fuel rest, NoneNext isNumberChar rest → 3 * (t ++ rest).length + 1 ≤ fuel →
      parseValueFuel fuel (t ++ rest) = some (v, rest)
  | .item v, t => ∀ fuel rest, NoneNext isNumberChar rest → NoneNext isWs rest →
      3 * (t ++ rest).length + 1 ≤ fuel →
      ∃ r, parseValueFuel fuel (t ++ rest) = some (v, r) ∧ skipWs r = rest
  | .items vs, t => ∀ fuel items rest, 3 * (t ++ chRBracket :: rest).length + 2 ≤ fuel →
      parseItemsFuel fuel (t ++ chRBracket :: rest) items = some (.array (items ++ vs), rest)
  | .member key v, t => ∀ fuel rest, NoneNext isNumberChar rest → NoneNext isWs rest →
      3 * (t ++ rest).length + 1 ≤ fuel →
      ∃ s p r, parseStringArena (skipWs (t ++ rest)) = some (key, s) ∧ skipWs s = chColon :: p ∧
        parseValueFuel fuel p = some (v, r) ∧ skipWs r = rest
  | .members entries, t => ∀ fuel es rest, 3 * (t ++ chRBrace :: rest).length + 2 ≤ fuel →
      parseMembersFuel fuel (skipWs (t ++ chRBrace :: rest)) es =
        some (.object (es ++ entries), rest)

theorem matchLiteral_append (literal rest : Bytes) :
    matchLiteral (literal ++ rest) literal = some rest := by
  have hprefix : literal.isPrefixOf (literal ++ rest) = true :=
    List.isPrefixOf_iff_prefix.mpr (List.prefix_append _ _)
  rw [matchLiteral, if_pos hprefix, List.drop_left]

theorem reads_literal {p : Bytes} {json : Value}
    (hstep : ∀ fuel rest, parseValueFuel (fuel + 1) (c :: (p ++ rest)) =
      parseLiteral (c :: (p ++ rest)) (c :: p) json) : Reads (.value json) (c :: p) := by
  intro fuel rest _ hfuel
  obtain ⟨fuel, rfl⟩ : ∃ k, fuel = k + 1 := ⟨fuel - 1, by omega⟩
  rw [List.cons_append, hstep, parseLiteral]
  have hmatch := matchLiteral_append (c :: p) rest
  rw [List.cons_append] at hmatch
  rw [hmatch]
  rfl

variable {t : Bytes}

theorem reads_number (h : Number t) : Reads (.value (.number t)) t := by
  intro fuel rest hrest hfuel
  obtain ⟨fuel, rfl⟩ : ∃ k, fuel = k + 1 := ⟨fuel - 1, by omega⟩
  obtain ⟨integer, hspan⟩ := parseNumberSpan_complete h hrest
  obtain ⟨c, p, hcp, hc⟩ : ∃ c p, t ++ rest = c :: p ∧ (c = chMinus ∨ isDigit c = true) := by
    obtain @⟨minus, int, frac, exp, hminus, hint, hfrac, hexp⟩ := h
    rcases hminus with rfl | rfl
    · obtain ⟨c, hhead, hc⟩ := @head_of_int int (frac ++ exp ++ rest) hint
      have hstart := eq_cons_of_head hhead
      rw [← List.append_assoc] at hstart
      exact ⟨c, _, hstart, Or.inr hc⟩
    · exact ⟨_, _, rfl, Or.inl rfl⟩
  have hother : ∀ d : UInt8, isDigit d = false → d ≠ chMinus → c ≠ d := by
    rintro d hdigit hminus rfl
    rcases hc with hc | hc
    · exact hminus hc
    · rw [hdigit] at hc
      cases hc
  have hws : isWs c = false := by
    by_contra hyes
    rcases isWs_iff.mp (Bool.not_eq_false _ ▸ hyes) with h | h | h | h
    · exact hother _ (by decide) (by decide) h
    · exact hother _ (by decide) (by decide) h
    · exact hother _ (by decide) (by decide) h
    · exact hother _ (by decide) (by decide) h
  rw [hcp, parseValueFuel_cons hws, if_neg (hother _ (by decide) (by decide)),
    if_neg (hother _ (by decide) (by decide)), if_neg (hother _ (by decide) (by decide)),
    if_pos hc, ← hcp, parseNumber, hspan]
  rfl

variable {raw : Bytes} {cs : List Char}

theorem reads_string (h : Chars raw cs) :
    Reads (.value (.string (utf8 cs))) (chQuote :: (raw ++ [chQuote])) := by
  intro fuel rest _ hfuel
  obtain ⟨fuel, rfl⟩ : ∃ k, fuel = k + 1 := ⟨fuel - 1, by omega⟩
  rw [List.cons_append, List.append_assoc, List.singleton_append,
    parseValueFuel_cons (by decide), if_neg (by decide), if_neg (by decide), if_pos rfl,
    parseString, parseStringArena_complete h]
  rfl

theorem parseValueFuel_bracket (fuel : Nat) (p : Bytes) :
    parseValueFuel (fuel + 1) (chLBracket :: p) = parseArrayFuel fuel p := by
  rw [parseValueFuel_cons (by decide), if_neg (by decide), if_pos rfl]

theorem parseValueFuel_brace (fuel : Nat) (p : Bytes) :
    parseValueFuel (fuel + 1) (chLBrace :: p) = parseObjectFuel fuel p := by
  rw [parseValueFuel_cons (by decide), if_pos rfl]

variable {w : Bytes}

theorem reads_emptyArray (hw : Ws w) :
    Reads (.value (.array [])) (chLBracket :: (w ++ [chRBracket])) := by
  intro fuel rest _ hfuel
  simp only [List.length_append, List.length_cons] at hfuel
  obtain ⟨fuel, rfl⟩ : ∃ k, fuel = k + 2 := ⟨fuel - 2, by omega⟩
  have hclose : skipWs (w ++ chRBracket :: rest) = chRBracket :: rest := by
    rw [skipWs_append hw, skipWs_cons (by decide)]
  rw [List.cons_append, List.append_assoc, List.singleton_append, parseValueFuel_bracket,
    parseArrayFuel, hclose]
  rfl

theorem reads_emptyObject (hw : Ws w) :
    Reads (.value (.object [])) (chLBrace :: (w ++ [chRBrace])) := by
  intro fuel rest _ hfuel
  simp only [List.length_append, List.length_cons] at hfuel
  obtain ⟨fuel, rfl⟩ : ∃ k, fuel = k + 2 := ⟨fuel - 2, by omega⟩
  have hclose : skipWs (w ++ chRBrace :: rest) = chRBrace :: rest := by
    rw [skipWs_append hw, skipWs_cons (by decide)]
  rw [List.cons_append, List.append_assoc, List.singleton_append, parseValueFuel_brace,
    parseObjectFuel, hclose]
  rfl

theorem reads_array (h : Reads (.items vs) t) :
    Reads (.value (.array vs)) (chLBracket :: (t ++ [chRBracket])) := by
  intro fuel rest _ hfuel
  simp only [List.length_append, List.length_cons, List.length_nil] at hfuel
  obtain ⟨fuel, rfl⟩ : ∃ k, fuel = k + 2 := ⟨fuel - 2, by omega⟩
  have hitems : parseItemsFuel fuel (t ++ chRBracket :: rest) [] = some (.array vs, rest) := by
    apply h
    simp only [List.length_append, List.length_cons]
    omega
  have hopen : ¬ (skipWs (t ++ chRBracket :: rest)).head? = some chRBracket := by
    intro hclose
    rw [parseItemsFuel_close hclose] at hitems
    cases hitems
  rw [List.cons_append, List.append_assoc, List.singleton_append, parseValueFuel_bracket,
    parseArrayFuel]
  simp only [if_neg hopen, parseItemsFuel_skipWs, hitems]

theorem reads_object (h : Reads (.members entries) t) :
    Reads (.value (.object entries)) (chLBrace :: (t ++ [chRBrace])) := by
  intro fuel rest _ hfuel
  simp only [List.length_append, List.length_cons, List.length_nil] at hfuel
  obtain ⟨fuel, rfl⟩ : ∃ k, fuel = k + 2 := ⟨fuel - 2, by omega⟩
  have hmembers : parseMembersFuel fuel (skipWs (t ++ chRBrace :: rest)) [] =
      some (.object entries, rest) := by
    apply h
    simp only [List.length_append, List.length_cons]
    omega
  have hopen : ¬ (skipWs (t ++ chRBrace :: rest)).head? = some chRBrace := by
    intro hclose
    rw [parseMembersFuel_close hclose] at hmembers
    cases hmembers
  rw [List.cons_append, List.append_assoc, List.singleton_append, parseValueFuel_brace,
    parseObjectFuel]
  simp only [if_neg hopen, hmembers]

theorem noneNext_after_ws {b rest : Bytes} (hb : Ws b) (hrest : NoneNext isNumberChar rest) :
    NoneNext isNumberChar (b ++ rest) := by
  cases b with
  | nil => exact hrest
  | cons c b =>
    apply NoneNext.cons
    rcases hb c List.mem_cons_self with rfl | rfl | rfl | rfl <;> decide

theorem reads_item {a t b : Bytes} (ha : Ws a) (h : Reads (.value v) t) (hb : Ws b) :
    Reads (.item v) (a ++ (t ++ b)) := by
  intro fuel rest hrest hws hfuel
  refine ⟨b ++ rest, ?_, ?_⟩
  · rw [List.append_assoc, List.append_assoc, ← parseValueFuel_skipWs, skipWs_append ha,
      parseValueFuel_skipWs]
    apply h fuel (b ++ rest) (noneNext_after_ws hb hrest)
    simp only [List.length_append] at hfuel ⊢
    omega
  · rw [skipWs_append hb]
    exact hws.dropWhile

theorem reads_lastItem (h : Reads (.item v) t) :
    Reads (.items [v]) t := by
  intro fuel items rest hfuel
  obtain ⟨fuel, rfl⟩ : ∃ k, fuel = k + 1 := ⟨fuel - 1, by omega⟩
  obtain ⟨r, hvalue, hr⟩ := h fuel (chRBracket :: rest) (NoneNext.cons (by decide) _)
    (NoneNext.cons (by decide) _) (by omega)
  rw [parseItemsFuel_round hvalue hr, if_pos rfl]

theorem reads_moreItems {t more : Bytes} (h : Reads (.item v) t)
    (hmore : Reads (.items vs) more) : Reads (.items (v :: vs)) (t ++ chComma :: more) := by
  intro fuel items rest hfuel
  simp only [List.append_assoc, List.cons_append, List.length_append, List.length_cons]
    at hfuel ⊢
  obtain ⟨fuel, rfl⟩ : ∃ k, fuel = k + 1 := ⟨fuel - 1, by omega⟩
  obtain ⟨r, hvalue, hr⟩ := h fuel (chComma :: (more ++ chRBracket :: rest))
    (NoneNext.cons (by decide) _) (NoneNext.cons (by decide) _) (by
      simp only [List.length_append, List.length_cons]
      omega)
  have hnext := hmore fuel (items ++ [v]) rest (by
    simp only [List.length_append, List.length_cons]
    omega)
  rw [parseItemsFuel_round hvalue hr, if_neg (by decide), if_neg (by decide),
    parseItemsFuel_skipWs, hnext, List.append_assoc, List.singleton_append]

theorem reads_member {a raw b t : Bytes} (ha : Ws a)
    (hkey : Chars raw cs) (hb : Ws b) (h : Reads (.item v) t) :
    Reads (.member (utf8 cs) v) (a ++ chQuote :: (raw ++ chQuote :: (b ++ chColon :: t))) := by
  intro fuel rest hrest hws hfuel
  simp only [List.append_assoc, List.cons_append, List.length_append, List.length_cons]
    at hfuel ⊢
  obtain ⟨r, hvalue, hr⟩ := h fuel rest hrest hws (by
    rw [List.length_append]
    omega)
  refine ⟨b ++ chColon :: (t ++ rest), t ++ rest, r, ?_, ?_, hvalue, hr⟩
  · rw [skipWs_append ha, skipWs_cons (by decide), parseStringArena_complete hkey]
  · rw [skipWs_append hb, skipWs_cons (by decide)]

theorem reads_lastMember {t key : Bytes} (h : Reads (.member key v) t) :
    Reads (.members [(key, v)]) t := by
  intro fuel entries rest hfuel
  obtain ⟨fuel, rfl⟩ : ∃ k, fuel = k + 1 := ⟨fuel - 1, by omega⟩
  obtain ⟨s, p, r, hstring, hcolon, hvalue, hr⟩ := h fuel (chRBrace :: rest)
    (NoneNext.cons (by decide) _) (NoneNext.cons (by decide) _) (by omega)
  rw [parseMembersFuel_round hstring hcolon hvalue hr, if_pos rfl]

theorem reads_moreMembers {t more key : Bytes}
    (h : Reads (.member key v) t) (hmore : Reads (.members entries) more) :
    Reads (.members ((key, v) :: entries)) (t ++ chComma :: more) := by
  intro fuel es rest hfuel
  simp only [List.append_assoc, List.cons_append, List.length_append, List.length_cons]
    at hfuel ⊢
  obtain ⟨fuel, rfl⟩ : ∃ k, fuel = k + 1 := ⟨fuel - 1, by omega⟩
  obtain ⟨s, p, r, hstring, hcolon, hvalue, hr⟩ :=
    h fuel (chComma :: (more ++ chRBrace :: rest)) (NoneNext.cons (by decide) _)
      (NoneNext.cons (by decide) _) (by
        simp only [List.length_append, List.length_cons]
        omega)
  have hnext := hmore fuel (es ++ [(key, v)]) rest (by
    simp only [List.length_append, List.length_cons]
    omega)
  rw [parseMembersFuel_round hstring hcolon hvalue hr, if_neg (by decide), if_neg (by decide),
    hnext, List.append_assoc, List.singleton_append]

/-- **What the grammar derives, the parser reads.** -/
theorem Grammar.Derives.reads {ph : Phrase} (h : Derives ph t) : Reads ph t := by
  induction h with
  | null => exact reads_literal fun _ _ => rfl
  | true => exact reads_literal fun _ _ => rfl
  | false => exact reads_literal fun _ _ => rfl
  | number h => exact reads_number h
  | string h => exact reads_string h
  | emptyArray hw => exact reads_emptyArray hw
  | array _ ih => exact reads_array ih
  | emptyObject hw => exact reads_emptyObject hw
  | object _ ih => exact reads_object ih
  | item ha _ hb ih => exact reads_item ha ih hb
  | lastItem _ ih => exact reads_lastItem ih
  | moreItems _ _ ih ihMore => exact reads_moreItems ih ihMore
  | member ha hkey hb _ ih => exact reads_member ha hkey hb ih
  | lastMember _ ih => exact reads_lastMember ih
  | moreMembers _ _ ih ihMore => exact reads_moreMembers ih ihMore

/-! ## The stage-one scan -/

/-- The scan byte by byte. -/
def Scan.run (st : Scan) (p : Bytes) : Option Scan := p.foldlM Scan.byte st

theorem Scan.run_cons (st : Scan) (c : UInt8) (p : Bytes) :
    st.run (c :: p) = (st.byte c).bind fun st' => st'.run p := rfl

theorem Scan.run_append (st : Scan) (p q : Bytes) :
    st.run (p ++ q) = (st.run p).bind fun st' => st'.run q := by
  simp only [Scan.run, List.foldlM_append]
  rfl

theorem Scan.run_outside (hw : ∀ c ∈ w, c ≠ chQuote) :
    Scan.outside.run w = some .outside := by
  induction w with
  | nil => rfl
  | cons c w ih =>
    have hc : c ≠ chQuote := hw c List.mem_cons_self
    rw [Scan.run_cons, Scan.byte, if_neg hc, Option.bind_some]
    exact ih fun d hd => hw d (List.mem_cons_of_mem _ hd)

theorem ne_quote_of_not_interesting (h : isInteresting c = false) : c ≠ chQuote := by
  rintro rfl
  exact absurd h (by decide)

theorem Scan.run_skip {k : Nat} {p : Bytes} (h : ∀ c ∈ p.take k, isInteresting c = false) :
    Scan.outside.run p = Scan.outside.run (p.drop k) := by
  have hskip : Scan.outside.run (p.take k) = some .outside :=
    Scan.run_outside fun c hc => ne_quote_of_not_interesting (h c hc)
  calc Scan.outside.run p = Scan.outside.run (p.take k ++ p.drop k) := by
        rw [List.take_append_drop]
    _ = Scan.outside.run (p.drop k) := by
        rw [Scan.run_append, hskip, Option.bind_some]

/-- **The scan by blocks is the scan byte by byte.** -/
theorem stage1Loop_eq :
    ∀ {fuel : Nat} {st : Scan} {p : Bytes}, p.length ≤ fuel → stage1Loop fuel st p = st.run p := by
  intro fuel
  induction fuel with
  | zero =>
    intro st p hfuel
    rw [List.length_eq_zero_iff.mp (Nat.le_zero.mp hfuel)]
    rfl
  | succ fuel ih =>
    intro st p hfuel
    cases p with
    | nil => rfl
    | cons c p =>
      rw [List.length_cons] at hfuel
      have hblock : ∀ {r}, st.block (c :: p) = some r →
          st = .outside ∧ ((c :: p).take 16).findIdx? isInteresting = r := by
        intro r hr
        unfold Scan.block at hr
        split at hr
        · next hcond =>
          cases hr
          exact ⟨hcond.1, rfl⟩
        · cases hr
      rw [stage1Loop]
      split
      · next hnone =>
        obtain ⟨rfl, hfind⟩ := hblock hnone
        rw [ih (by rw [List.length_drop, List.length_cons]; omega)]
        exact (Scan.run_skip (List.findIdx?_eq_none_iff.mp hfind)).symm
      · next skip hsome =>
        obtain ⟨rfl, hfind⟩ := hblock hsome
        rw [ih (by rw [List.length_drop, List.length_cons]; omega)]
        refine (Scan.run_skip fun d hd => ?_).symm
        obtain ⟨hlt, _, hbefore⟩ := List.findIdx?_eq_some_iff_getElem.mp hfind
        obtain ⟨j, hj, rfl⟩ := List.mem_take_iff_getElem.mp hd
        have hno := hbefore j (by omega)
        rw [List.getElem_take] at hno
        simpa using hno
      · rw [Scan.run_cons]
        exact Option.bind_congr fun st' _ => ih (by omega)

theorem Scan.run_inString (hw : ∀ c ∈ w, StrInert c ∧ ¬ c < 0x20) :
    Scan.inString.run w = some .inString := by
  induction w with
  | nil => rfl
  | cons c w ih =>
    obtain ⟨⟨hquote, hback⟩, hctl⟩ := hw c List.mem_cons_self
    rw [Scan.run_cons, Scan.byte, if_neg hback, if_neg hquote, if_neg hctl, Option.bind_some]
    exact ih fun d hd => hw d (List.mem_cons_of_mem _ hd)

theorem plain_of_hexValue {n : Nat} (h : hexValue c = some n) :
    StrInert c ∧ ¬ c < 0x20 := by
  refine ⟨strInert_of_hexValue (by rw [h]; rfl), fun hctl => ?_⟩
  have hlt : c.toNat < 0x20 := UInt8.lt_iff_toNat_lt.mp hctl
  have hnone : ∀ n < 0x20, hexValue (UInt8.ofNat n) = none := by decide
  rw [← UInt8.ofNat_toNat (x := c), hnone _ hlt] at h
  cases h

theorem Grammar.Hex4.scan {d : Bytes} {n : Nat} (h : Hex4 d n) :
    Scan.inString.run d = some .inString := by
  cases h with
  | mk ha hb hc hd =>
    apply Scan.run_inString
    simp only [List.mem_cons, List.not_mem_nil, or_false, forall_eq_or_imp, forall_eq]
    exact ⟨plain_of_hexValue ha, plain_of_hexValue hb, plain_of_hexValue hc, plain_of_hexValue hd⟩

/-- The scan stays inside a string over its characters. -/
theorem Grammar.Chars.scan (h : Chars raw cs) :
    Scan.inString.run raw = some .inString := by
  induction h with
  | nil => rfl
  | @cons u raw c cs hu hraw ih =>
    have hone : Scan.inString.run u = some .inString := by
      cases hu with
      | plain hctl hquote hback =>
        have hplain : Plain c := ⟨hctl, hquote, hback⟩
        apply Scan.run_inString
        intro b hb
        obtain ⟨hb1, hb2, hb3⟩ := hplain.byte b hb
        refine ⟨⟨fun h => hb2 (congrArg UInt8.toNat h), fun h => hb3 (congrArg UInt8.toNat h)⟩,
          fun h => ?_⟩
        exact absurd (UInt8.lt_iff_toNat_lt.mp h) (Nat.not_lt.mpr hb1)
      | short => rfl
      | unicode hd => exact hd.scan
      | @pair d l hi lo _ hd hl =>
        have hrun : Scan.inString.run (d ++ chBackslash :: 0x75 :: l) = some .inString := by
          rw [Scan.run_append, hd.scan]
          exact hl.scan
        exact hrun
    rw [Scan.run_append, hone]
    exact ih

theorem Grammar.Chars.scan_quoted (h : Chars raw cs) (rest : Bytes) :
    Scan.outside.run (chQuote :: (raw ++ chQuote :: rest)) = Scan.outside.run rest := by
  have hopen : Scan.outside.run (chQuote :: (raw ++ chQuote :: rest)) =
      Scan.inString.run (raw ++ chQuote :: rest) := rfl
  rw [hopen, Scan.run_append, h.scan]
  rfl

theorem Grammar.Ws.scan (hw : Ws w) : Scan.outside.run w = some .outside := by
  apply Scan.run_outside
  intro c hc
  rcases hw c hc with rfl | rfl | rfl | rfl <;> decide

theorem Grammar.Number.scan (h : Number t) : Scan.outside.run t = some .outside := by
  obtain ⟨integer, hspan⟩ := parseNumberSpan_complete h (NoneNext.nil _)
  obtain ⟨w, hw, hchars⟩ := numberRun_span hspan
  rw [List.append_nil, List.append_nil] at hw
  subst hw
  apply Scan.run_outside
  rintro c hc rfl
  exact absurd (hchars _ hc) (by decide)

/-- **The scan passes every derived text.** -/
theorem Grammar.Derives.scan {ph : Phrase} (h : Derives ph t) :
    Scan.outside.run t = some .outside := by
  -- A structural byte outside a string leaves the scan outside.
  have hbyte : ∀ {c : UInt8} (p : Bytes), c ≠ chQuote →
      Scan.outside.run (c :: p) = Scan.outside.run p := by
    intro c p hc
    rw [Scan.run_cons, Scan.byte, if_neg hc, Option.bind_some]
  have happend : ∀ {p : Bytes} (q : Bytes), Scan.outside.run p = some .outside →
      Scan.outside.run (p ++ q) = Scan.outside.run q := by
    intro p q hp
    rw [Scan.run_append, hp, Option.bind_some]
  induction h with
  | null => rfl
  | true => rfl
  | false => rfl
  | number h => exact h.scan
  | string h => exact h.scan_quoted []
  | emptyArray hw =>
    rw [hbyte _ (by decide), happend _ hw.scan]
    rfl
  | array _ ih =>
    rw [hbyte _ (by decide), happend _ ih]
    rfl
  | emptyObject hw =>
    rw [hbyte _ (by decide), happend _ hw.scan]
    rfl
  | object _ ih =>
    rw [hbyte _ (by decide), happend _ ih]
    rfl
  | item ha _ hb ih => rw [happend _ ha.scan, happend _ ih, hb.scan]
  | lastItem _ ih => exact ih
  | moreItems _ _ ih ihMore => rw [happend _ ih, hbyte _ (by decide), ihMore]
  | member ha hkey hb _ ih =>
    rw [happend _ ha.scan, hkey.scan_quoted, happend _ hb.scan, hbyte _ (by decide), ih]
  | lastMember _ ih => exact ih
  | moreMembers _ _ ih ihMore => rw [happend _ ih, hbyte _ (by decide), ihMore]

/-! ## The entry -/

variable {input : Bytes}

theorem parseValue_of_text (h : Text v input) :
    ∃ rest, parseValue input = some (v, rest) ∧ skipWs rest = [] := by
  have hreads := Derives.reads h (parseFuel input) [] (NoneNext.nil _) (NoneNext.nil _)
    (by rw [List.append_nil]; exact Nat.le_refl _)
  rwa [List.append_nil] at hreads

theorem text_of_parseValue {input rest : Bytes}
    (h : parseValue input = some (v, rest)) (hrest : skipWs rest = []) : Text v input := by
  obtain ⟨t, ht, hcur⟩ := (parse_sound_fuel _).1 _ _ _ h
  obtain ⟨a, ha, hinput⟩ := exists_ws input
  obtain ⟨b, hb, hb'⟩ := exists_ws rest
  rw [hrest, List.append_nil] at hb'
  subst hb'
  rw [hcur] at hinput
  rw [hinput]
  exact Derives.item ha ht hb

/-- **A text spells one value.** -/
theorem text_unique {v w : Value} (hv : Text v input) (hw : Text w input) :
    v = w := by
  obtain ⟨r, hr, _⟩ := parseValue_of_text hv
  obtain ⟨s, hs, _⟩ := parseValue_of_text hw
  rw [hr] at hs
  cases hs
  rfl

theorem stage1Scan_of_text (h : Text v input) :
    stage1Scan input = .ok := by
  rw [stage1Scan, if_pos]
  rw [stage1Loop_eq (Nat.le_refl _)]
  exact Derives.scan h

theorem parse_error {status : Status} (h : parse input = .error status) :
    status = .json := by
  unfold parse at h
  split at h
  · next hscan =>
    cases h
    unfold stage1Scan at hscan ⊢
    split
    · next hok => exact absurd (if_pos hok) hscan
    · rfl
  · split at h
    · cases h
      rfl
    · split at h
      · cases h
      · cases h
        rfl

theorem parse_ok_iff (input : Bytes) (tree : Value) :
    parse input = .ok tree ↔ ∃ v, Text v input ∧ tree = v.terminated := by
  constructor
  · intro h
    unfold parse at h
    split at h
    · cases h
    · split at h
      · cases h
      · next v rest hvalue =>
        split at h
        · next hrest =>
          cases h
          exact ⟨v, text_of_parseValue hvalue hrest, rfl⟩
        · cases h
  · rintro ⟨v, htext, rfl⟩
    obtain ⟨rest, hvalue, hrest⟩ := parseValue_of_text htext
    have hscan : ¬ stage1Scan input ≠ .ok := not_not.mpr (stage1Scan_of_text htext)
    simp only [parse, if_neg hscan, hvalue, if_pos hrest]

theorem parse_refused (input : Bytes) (hnone : ∀ v, ¬ Text v input) : parse input = .error .json := by
  cases hparse : parse input with
  | error status => rw [parse_error hparse]
  | ok tree =>
    obtain ⟨v, htext, _⟩ := (parse_ok_iff input tree).mp hparse
    exact absurd htext (hnone v)

/-- **The DOM parser accepts exactly JSON.**  The entry succeeds on a byte string
when it is one value surrounded by whitespace, and returns the tree of that
value as C strings hold it; every other input is `DCC_ERR_JSON`. -/
theorem parse_iff (input : Bytes) :
    (∀ tree, parse input = .ok tree ↔ ∃ v, Text v input ∧ tree = v.terminated) ∧
      ((∀ v, ¬ Text v input) → parse input = .error .json) :=
  ⟨parse_ok_iff input, parse_refused input⟩

/-- A string of the one character U+0000 is read as the empty string, which the
text does not spell. -/
theorem nul_text_reads_empty :
    Text (.string [0]) [0x22, 0x5c, 0x75, 0x30, 0x30, 0x30, 0x30, 0x22] ∧
      parse [0x22, 0x5c, 0x75, 0x30, 0x30, 0x30, 0x30, 0x22] = .ok (.string []) ∧
      ¬ Text (.string []) [0x22, 0x5c, 0x75, 0x30, 0x30, 0x30, 0x30, 0x22] := by
  have hhex : Hex4 [0x30, 0x30, 0x30, 0x30] 0 := (@parseHex4At_four _ _ _ _ [] _).mp rfl
  have hchars := Chars.cons (Spells.unicode hhex (show (Char.ofNat 0).toNat = 0 from rfl)) Chars.nil
  have htext : Text (.string [0]) [0x22, 0x5c, 0x75, 0x30, 0x30, 0x30, 0x30, 0x22] :=
    Derives.item ws_nil (Derives.string hchars) ws_nil
  refine ⟨htext, rfl, fun hempty => ?_⟩
  cases text_unique htext hempty

end Dcc.Json
