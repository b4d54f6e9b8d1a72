import Dcc.Cache.UpdateMerge
import Mathlib.Data.List.TakeWhile
import Mathlib.Data.Nat.Bitwise

/-!
# The values a partial update gives

`Key.value` says, without the readers of the source, what a JSON value means
for a field: `null` clears it, a text of digits is the id it spells, an array
is all of its items.  An update keeps its word for a field when the entity in
the cache holds that value afterwards.

* `read_eq_value_iff`: a stored value is the payload's value when it fits;
* `update_retained`, `update_stored`: which of the two a merged field holds;
* `update_present_iff`: the fields an update gives hold its values exactly when
  no blank value is left to an unmarked presence bit and every value fits.
-/

namespace Dcc.Cache.Merge

/-! ## What a payload says -/

/-- One digit of a decimal number. -/
def decimalDigit (value : Nat) (c : UInt8) : Option Nat :=
  if c < 0x30 ∨ 0x39 < c then none else some (value * 10 + (c.toNat - 0x30))

/-- The number a text of digits spells. -/
def decimal (s : Bytes) : Option Nat := if s = [] then none else s.foldlM decimalDigit 0

/-- An id in an array may be spelled as a text. -/
def Item.value : Item → Item
  | .text s => (decimal s).elim (.text s) .number
  | i => i

/-- What a JSON value means for a field of the given shape. -/
def Shape.value : Shape → Raw → Option Value
  | .number, .null => some (.number 0)
  | .number, .bool b => some (.number b.toNat)
  | .number, .number n => some (.number n)
  | .number, .text s => (decimal s).map .number
  | .text, .null => some (.text none)
  | .text, .text s => some (.text (some s))
  | .list, .array items => some (.list (some (items.map Item.value)) false)
  | .spelling, .spelled json => some (.spelling (some json) false)
  | _, _ => none

/-- What the value of a key means for its field; `authorValue` names no field
of its own. -/
def Key.value (k : Key) (raw : Raw) : Option Value :=
  if k = .authorValue then none else k.field.shape.value raw

/-- The payload gives the field `f` the value `v`.  An `author` of `null` takes
every field of the author away. -/
def Payload.gives {e : Event} (p : Payload e) (f : Key) (v : Value) : Prop :=
  e.gather Key.value f p.members = some v ∨
    (.authorValue, Raw.null) ∈ p.members ∧ (∃ k, f = .author k) ∧ f.field = f ∧ v = f.blank

/-! ## When a field is kept and when it is stored whole -/

/-- An array of ids that is stored whole. -/
def idsFit (items : List Item) : Prop :=
  items.length ≤ idListCap ∧ ∀ s, Item.text s ∈ items → 0 ∉ s

/-- An array of objects that is stored whole. -/
def objectsFit (items : List Item) : Prop :=
  (∀ i ∈ items, i.isObject) ∧ items.length ≤ objectListCap

/-- The value is not cut: a text has no NUL, an array is within its capacity,
`components` is shorter than its buffer. -/
def Key.fits (k : Key) : Raw → Prop
  | .text s => k.shape = .text → 0 ∉ s
  | .array items =>
    if k = .roles ∧ firstIsObject items = false then idsFit items else objectsFit items
  | .spelled json => json.length < componentsCap
  | _ => True

/-- Every key of the field `f` is one the event's entity takes, with a value
that fits. -/
def Payload.whole {e : Event} (p : Payload e) (f : Key) : Prop :=
  ∀ m ∈ p.members, m.1.field = f → e.takes m.1 m.2 ∧ m.1.fits m.2

/-- The payload does not give the key `i`, or gives it as zero. -/
def Payload.unset {e : Event} (p : Payload e) (i : Key) : Prop :=
  ∀ m ∈ p.members, m.1 = i → m.1.reader.read m.2 = some i.blank

/-- The field `f` stays as it is cached: its values are blank or kept elsewhere
and no key of the payload marks its presence bit, or it belongs to a nested user
whose id is not given. -/
def Payload.retains {e : Event} (p : Payload e) (f : Key) : Prop :=
  (∃ i ∈ e.owner f, p.unset i) ∨
    (∀ m ∈ p.members, m.1.field = f → e.takes m.1 m.2 → m.1.reader.read m.2 = some f.blank) ∧
      ∀ b ∈ e.guard f, ∀ m ∈ p.members, b ∉ m.1.marks m.2

/-! ## Readers and values -/

/-- The shape of what a reader stores. -/
def Reader.shape : Reader → Shape
  | .string _ => .text
  | .nullableString _ => .text
  | .timestamp => .text
  | .roleList => .list
  | .objectList => .list
  | .components => .spelling
  | _ => .number

theorem shape_reader (k : Key) : k.reader.shape = k.field.shape := by
  cases k with
  | guildText t => cases t <;> rfl
  | role r => cases r <;> rfl
  | user u => cases u <;> rfl
  | author u => cases u <;> rfl
  | _ => rfl

theorem u64Digit_decimalDigit {value n : Nat} {c : UInt8} (h : u64Digit value c = some n) :
    decimalDigit value c = some n := by
  unfold u64Digit at h
  unfold decimalDigit
  split at h
  · cases h
  · next hc =>
    rw [if_neg hc]
    simp only at h
    split at h
    · cases h
    · exact h

theorem u64Digits_decimal {n : Nat} :
    ∀ {s : Bytes} {value : Nat}, s.foldlM u64Digit value = some n →
      s.foldlM decimalDigit value = some n := by
  intro s
  induction s with
  | nil =>
    intro value h
    exact h
  | cons c rest ih =>
    intro value h
    rw [List.foldlM_cons] at h ⊢
    obtain ⟨value', h1, h2⟩ := Option.bind_eq_some_iff.mp h
    exact Option.bind_eq_some_iff.mpr ⟨value', u64Digit_decimalDigit h1, ih h2⟩

theorem parseU64Ascii_decimal {s : Bytes} {n : Nat} (h : parseU64Ascii s = some n) :
    decimal s = some n := by
  unfold parseU64Ascii at h
  unfold decimal
  split at h
  · cases h
  · next hs =>
    rw [if_neg hs]
    exact u64Digits_decimal h

theorem decimal_digits {n : Nat} :
    ∀ {s : Bytes} {value : Nat}, s.foldlM decimalDigit value = some n → (0 : UInt8) ∉ s := by
  intro s
  induction s with
  | nil =>
    intro value _
    exact List.not_mem_nil
  | cons c rest ih =>
    intro value h
    rw [List.foldlM_cons] at h
    obtain ⟨value', h1, h2⟩ := Option.bind_eq_some_iff.mp h
    rw [List.mem_cons, not_or]
    refine ⟨?_, ih h2⟩
    rintro rfl
    exact absurd h1 (by simp [decimalDigit])

theorem cText_of_not_mem {s : Bytes} (h : (0 : UInt8) ∉ s) : cText s = s := by
  unfold cText
  rw [List.takeWhile_eq_self_iff]
  intro c hc
  simpa using fun h0 : c = 0 => h (h0 ▸ hc)

theorem cText_eq_iff {s : Bytes} : cText s = s ↔ (0 : UInt8) ∉ s := by
  constructor
  · intro h hmem
    have hall := List.takeWhile_eq_self_iff.mp h 0 hmem
    exact absurd hall (by decide)
  · exact cText_of_not_mem

theorem u64Text_decimal {s : Bytes} {n w : Nat} (h : u64Text s = some n) (hw : decimal s = some w) :
    n = w := by
  unfold u64Text at h
  split at h
  · have hnul : (0 : UInt8) ∉ s := by
      unfold decimal at hw
      split at hw
      · cases hw
      · exact decimal_digits hw
    rw [cText_of_not_mem hnul] at h
    have := parseU64Ascii_decimal h
    rw [hw] at this
    exact (Option.some.inj this).symm
  · cases h

theorem u64Direct_eq {n w : Nat} (h : u64Direct n = some w) : w = n := by
  unfold u64Direct at h
  split at h
  · exact (Option.some.inj h).symm
  · cases h

variable {raw : Raw}

theorem nullableU64_value {n w : Nat} (h : nullableU64 raw = some n)
    (hw : Shape.number.value raw = some (.number w)) : n = w := by
  cases raw with
  | null =>
    simp only [nullableU64, Option.some.injEq] at h
    simp only [Shape.value, Option.some.injEq, Value.number.injEq] at hw
    omega
  | number m =>
    have hn := u64Direct_eq h
    simp only [Shape.value, Option.some.injEq, Value.number.injEq] at hw
    omega
  | text s =>
    simp only [Shape.value, Option.map_eq_some_iff, Value.number.injEq] at hw
    obtain ⟨w', hw', rfl⟩ := hw
    exact u64Text_decimal h hw'
  | _ => cases h

theorem u64Token_nullable {n : Nat} (h : u64Token raw = some n) :
    nullableU64 raw = some n := by
  cases raw with
  | null => cases h
  | _ => exact h

theorem read_number {rd : Reader} {r v : Value} (hshape : rd.shape = .number)
    (hskip : rd ≠ .skip) (htag : rd = .typeTag → ∃ n, raw = .number n)
    (hread : rd.read raw = some r) (hv : Shape.number.value raw = some v) : r = v := by
  have hnum : ∀ {n : Nat}, nullableU64 raw = some n → Value.number n = v := by
    intro n hn
    have hex : ∃ w, v = .number w := by
      cases raw <;> simp_all [Shape.value] <;> grind
    obtain ⟨w, rfl⟩ := hex
    rw [nullableU64_value hn hv]
  cases rd with
  | idToken =>
    obtain ⟨n, hn, rfl⟩ := Option.map_eq_some_iff.mp hread
    exact hnum (u64Token_nullable hn)
  | nullableId =>
    obtain ⟨n, hn, rfl⟩ := Option.map_eq_some_iff.mp hread
    exact hnum hn
  | shortToken =>
    obtain ⟨n, hn, rfl⟩ := Option.map_eq_some_iff.mp hread
    exact hnum (u64Token_nullable (Option.eq_some_of_filter_eq_some hn))
  | wideNumber =>
    cases raw with
    | number m =>
      obtain ⟨n, hn, rfl⟩ := Option.map_eq_some_iff.mp hread
      exact hnum hn
    | _ => cases hread
  | number =>
    cases raw with
    | number m =>
      obtain ⟨n, hn, rfl⟩ := Option.map_eq_some_iff.mp hread
      exact hnum (Option.eq_some_of_filter_eq_some hn)
    | _ => cases hread
  | nullableNumber =>
    obtain ⟨n, hn, rfl⟩ := Option.map_eq_some_iff.mp hread
    exact hnum (Option.eq_some_of_filter_eq_some hn)
  | bool =>
    cases raw with
    | bool b => exact Option.some.inj (hread.symm.trans hv)
    | _ => cases hread
  | typeTag =>
    obtain ⟨m, rfl⟩ := htag rfl
    obtain ⟨n, hn, rfl⟩ := Option.map_eq_some_iff.mp hread
    exact hnum (Option.eq_some_of_filter_eq_some hn)
  | skip => exact absurd rfl hskip
  | _ => cases hshape

theorem stringBuffer_eq_iff {cap : Nat} {s : Bytes} {r : Value} (h : stringBuffer cap s = some r) :
    r = .text (some s) ↔ (0 : UInt8) ∉ s := by
  unfold stringBuffer at h
  split at h
  · rw [← Option.some.inj h, Value.text.injEq, Option.some.injEq]
    exact cText_eq_iff
  · cases h

theorem read_text {rd : Reader} {r v : Value} (hshape : rd.shape = .text)
    (hread : rd.read raw = some r) (hv : Shape.text.value raw = some v) :
    r = v ↔ ∀ s, raw = .text s → (0 : UInt8) ∉ s := by
  cases raw with
  | null =>
    have hr : r = .text none := by
      cases rd <;> first | (cases hshape; done) | exact (Option.some.inj hread).symm | cases hread
    rw [hr, ← Option.some.inj hv]
    simp
  | text s =>
    have hr : ∃ cap, stringBuffer cap s = some r := by
      cases rd <;> first | (cases hshape; done) | exact ⟨_, hread⟩
    obtain ⟨cap, hr⟩ := hr
    rw [← Option.some.inj hv, stringBuffer_eq_iff hr]
    constructor
    · intro h s' hs'
      cases hs'
      exact h
    · intro h
      exact h s rfl
  | _ => cases hv

theorem Item.value_of_isObject {i : Item} (h : i.isObject) : i.value = i := by
  cases i with
  | object s => rfl
  | _ => cases h

theorem objectArray_eq_iff (items : List Item) :
    objectArray items = .list (some (items.map Item.value)) false ↔ objectsFit items := by
  unfold objectArray objectsFit
  constructor
  · intro h
    simp only [Value.list.injEq, Bool.or_eq_false_iff, List.any_eq_false, Bool.not_eq_true',
      Bool.not_eq_false, decide_eq_false_iff_not, not_lt] at h
    have hall : ∀ i ∈ items, i.isObject := h.2.1
    rw [List.filter_eq_self.mpr hall] at h
    exact ⟨hall, h.2.2⟩
  · rintro ⟨hall, hlen⟩
    have hmap : items.map Item.value = items := by
      rw [List.map_congr_left fun i hi => Item.value_of_isObject (hall i hi), List.map_id']
    simp only [List.filter_eq_self.mpr hall, hmap, List.take_of_length_le hlen, Value.list.injEq,
      true_and, Bool.or_eq_false_iff, List.any_eq_false, decide_eq_false_iff_not, not_lt]
    refine ⟨?_, hlen⟩
    intro i hi
    simp [hall i hi]

theorem Item.value_text {s : Bytes} {n : Nat} (h : Item.value (.text s) = .number n) :
    decimal s = some n := by
  unfold Item.value at h
  cases hs : decimal s with
  | none => simp [hs] at h
  | some w =>
    simp only [hs, Option.elim_some, Item.number.injEq] at h
    rw [h]

theorem decimal_not_mem {s : Bytes} {n : Nat} (h : decimal s = some n) : (0 : UInt8) ∉ s := by
  unfold decimal at h
  split at h
  · cases h
  · exact decimal_digits h

theorem snowflake_value {i : Item} {n : Nat} (h : snowflake i = some n)
    (hnul : ∀ s, i = .text s → (0 : UInt8) ∉ s) : i.value = .number n := by
  cases i with
  | number m =>
    rw [u64Direct_eq h]
    rfl
  | text s =>
    have htext : u64Text s = some n := h
    unfold u64Text at htext
    split at htext
    · rw [cText_of_not_mem (hnul s rfl)] at htext
      simp [Item.value, parseU64Ascii_decimal htext]
    · cases htext
  | _ => cases h

theorem snowflakes_value :
    ∀ {items : List Item} {ids : List Nat}, items.mapM snowflake = some ids →
      (∀ s, Item.text s ∈ items → (0 : UInt8) ∉ s) → items.map Item.value = ids.map .number := by
  intro items
  induction items with
  | nil =>
    intro ids h _
    obtain rfl : [] = ids := by simpa using h
    rfl
  | cons i rest ih =>
    intro ids h hnul
    rw [List.mapM_cons] at h
    obtain ⟨n, hn, h⟩ := Option.bind_eq_some_iff.mp h
    obtain ⟨ns, hns, h⟩ := Option.bind_eq_some_iff.mp h
    obtain rfl : n :: ns = ids := by simpa using h
    rw [List.map_cons, List.map_cons, snowflake_value hn, ih hns]
    · intro s hs
      exact hnul s (List.mem_cons_of_mem _ hs)
    · rintro s rfl
      exact hnul s List.mem_cons_self

theorem mapM_length {items : List Item} :
    ∀ {ids : List Nat}, items.mapM snowflake = some ids → ids.length = items.length := by
  induction items with
  | nil =>
    intro ids h
    obtain rfl : [] = ids := by simpa using h
    rfl
  | cons i rest ih =>
    intro ids h
    rw [List.mapM_cons] at h
    obtain ⟨n, -, h⟩ := Option.bind_eq_some_iff.mp h
    obtain ⟨ns, hns, h⟩ := Option.bind_eq_some_iff.mp h
    obtain rfl : n :: ns = ids := by simpa using h
    simp [ih hns]

theorem snowflakeArray_eq_iff {items : List Item} {r : Value} (h : snowflakeArray items = some r) :
    r = .list (some (items.map Item.value)) false ↔ idsFit items := by
  obtain ⟨ids, hids, rfl⟩ := Option.map_eq_some_iff.mp h
  have hlen := mapM_length hids
  unfold idsFit
  simp only [Value.list.injEq, Option.some.injEq, decide_eq_false_iff_not, not_lt]
  constructor
  · rintro ⟨heq, hcap⟩
    refine ⟨by omega, ?_⟩
    intro s hs
    have hmem : Item.value (.text s) ∈ (ids.take idListCap).map Item.number :=
      heq ▸ List.mem_map_of_mem hs
    obtain ⟨n, -, hn⟩ := List.mem_map.mp hmem
    exact decimal_not_mem (Item.value_text hn.symm)
  · rintro ⟨hcap, hnul⟩
    rw [snowflakes_value hids hnul, List.take_of_length_le (by omega)]
    exact ⟨rfl, by omega⟩

variable {k : Key}

theorem roles_of_reader (h : k.reader = .roleList) : k = .roles := by
  cases k with
  | roles => rfl
  | guildText t => cases t <;> cases h
  | role r => cases r <;> cases h
  | user u => cases u <;> cases h
  | author u => cases u <;> cases h
  | _ => cases h

theorem typeTag_takes {e : Event} (h : e.takes k raw)
    (hk : k.reader = .typeTag) : ∃ n, raw = .number n := by
  cases k with
  | type =>
    cases raw with
    | number n => exact ⟨n, rfl⟩
    | _ => cases h
  | guildText t => cases t <;> cases hk
  | role r => cases r <;> cases hk
  | user u => cases u <;> cases hk
  | author u => cases u <;> cases hk
  | _ => cases hk

theorem authorValue_of_reader (h : k.reader = .skip) : k = .authorValue := by
  cases k with
  | authorValue => rfl
  | guildText t => cases t <;> cases h
  | role r => cases r <;> cases h
  | user u => cases u <;> cases h
  | author u => cases u <;> cases h
  | _ => cases h

theorem shape_field (k : Key) : k.field.shape = k.shape := by
  rcases field_eq k with h | ⟨rfl, -⟩ | ⟨rfl, -⟩ | ⟨rfl, -⟩
  · rw [h]
  · rfl
  · rfl
  · rfl

/-- **A stored value is the payload's value exactly when it fits.** -/
theorem read_eq_value_iff {e : Event} {r v : Value} (htakes : e.takes k raw)
    (hread : k.reader.read raw = some r) (hv : k.value raw = some v) : r = v ↔ k.fits raw := by
  unfold Key.value at hv
  split at hv
  · cases hv
  next hauthor =>
  rw [← shape_reader k] at hv
  cases hshape : k.reader.shape with
  | number =>
    rw [hshape] at hv
    have heq : r = v := read_number hshape (fun h => hauthor (authorValue_of_reader h))
      (typeTag_takes htakes) hread hv
    have hfits : k.fits raw := by
      cases raw with
      | text s =>
        intro htext
        rw [← shape_field, ← shape_reader, hshape] at htext
        cases htext
      | array items => cases hv
      | spelled json => cases hv
      | _ => trivial
    exact iff_of_true heq hfits
  | text =>
    rw [hshape] at hv
    rw [read_text hshape hread hv]
    cases raw with
    | null => simp [Key.fits]
    | text s =>
      have htext : k.shape = .text := by rw [← shape_field, ← shape_reader, hshape]
      simp [Key.fits, htext]
    | _ => cases hv
  | list =>
    rw [hshape] at hv
    cases raw with
    | array items =>
      obtain rfl := Option.some.inj hv
      cases hrd : k.reader with
      | roleList =>
        obtain rfl := roles_of_reader hrd
        simp only [hrd, Reader.read] at hread
        by_cases hfirst : firstIsObject items
        · rw [if_pos hfirst] at hread
          obtain rfl := Option.some.inj hread
          simp [Key.fits, hfirst, objectArray_eq_iff]
        · rw [if_neg hfirst] at hread
          simp [Key.fits, hfirst, snowflakeArray_eq_iff hread]
      | objectList =>
        have hroles : k ≠ .roles := by
          rintro rfl
          cases hrd
        rw [hrd] at hread
        obtain rfl := Option.some.inj hread
        simp [Key.fits, hroles, objectArray_eq_iff]
      | _ =>
        rw [hrd] at hshape
        cases hshape
    | _ => cases hv
  | spelling =>
    rw [hshape] at hv
    cases raw with
    | spelled json =>
      obtain rfl := Option.some.inj hv
      have hrd : k.reader = .components := by
        cases hrd : k.reader <;> rw [hrd] at hshape <;> first | rfl | cases hshape
      rw [hrd] at hread
      obtain rfl := Option.some.inj hread
      unfold copyComponents Key.fits
      split
      · next hlen => simp [hlen]
      · next hlen => simp [Nat.lt_of_not_le hlen]
    | _ => cases hv

/-! ## Joined flags -/

theorem joined_key {e : Event} (hj : e.joins k.field) :
    (k = .flags ∧ e = .userUpdate ∨ k = .publicFlags) ∨
      (k = .user .flags ∨ k = .user .publicFlags) ∨
      (k = .author .flags ∨ k = .author .publicFlags) := by
  unfold Event.joins at hj
  rcases field_eq k with h | ⟨rfl, -⟩ | ⟨rfl, -⟩ | ⟨rfl, -⟩
  · rw [h] at hj
    split at hj
    · exact .inl (.inl ⟨rfl, rfl⟩)
    · exact .inr (.inl (.inl rfl))
    · exact .inr (.inr (.inl rfl))
    · cases hj
  · exact .inl (.inr rfl)
  · exact .inr (.inl (.inr rfl))
  · exact .inr (.inr (.inr rfl))

theorem joined_read {e : Event} {v : Value} (hj : e.joins k.field)
    (hread : k.reader.read raw = some v) :
    ∃ n, raw = .number n ∧ v = .number n ∧ k.value raw = some (.number n) := by
  have hkey := joined_key hj
  have hnumber : ∃ n, raw = .number n := by
    rcases hkey with (⟨rfl, -⟩ | rfl) | (rfl | rfl) | (rfl | rfl) <;>
      cases raw <;> first | exact ⟨_, rfl⟩ | cases hread
  obtain ⟨n, rfl⟩ := hnumber
  have hvalue : k.value (.number n) = some (.number n) := by
    rcases hkey with (⟨rfl, -⟩ | rfl) | (rfl | rfl) | (rfl | rfl) <;> rfl
  have hv : v = .number n := by
    rcases hkey with (⟨rfl, -⟩ | rfl) | (rfl | rfl) | (rfl | rfl)
    · obtain ⟨w, hw, rfl⟩ := Option.map_eq_some_iff.mp hread
      rw [u64Direct_eq hw]
    all_goals
      obtain ⟨w, hw, rfl⟩ := Option.map_eq_some_iff.mp hread
      rw [u64Direct_eq (Option.eq_some_of_filter_eq_some hw)]
  exact ⟨n, rfl, hv, hvalue⟩

/-- The number a member adds to a joined field. -/
def part (read : Key → Raw → Option Value) (f : Key) (m : Key × Raw) : Nat :=
  if m.1.field = f then
    match read m.1 m.2 with
    | some (.number n) => n
    | _ => 0
  else 0

/-- The flags of several members together. -/
def orParts (part : Key × Raw → Nat) (members : List (Key × Raw)) (start : Nat) : Nat :=
  members.foldl (fun acc m => acc ||| part m) start

theorem orParts_eq_zero_iff {part : Key × Raw → Nat} :
    ∀ {members : List (Key × Raw)} {start : Nat},
      orParts part members start = 0 ↔ start = 0 ∧ ∀ m ∈ members, part m = 0 := by
  intro members
  induction members with
  | nil =>
    intro start
    simp [orParts]
  | cons m rest ih =>
    intro start
    have hstep : orParts part (m :: rest) start = orParts part rest (start ||| part m) := rfl
    rw [hstep, ih, Nat.or_eq_zero_iff]
    simp [and_assoc]

theorem le_orParts {part : Key × Raw → Nat} :
    ∀ {members : List (Key × Raw)} {start : Nat},
      start ≤ orParts part members start ∧ ∀ m ∈ members, part m ≤ orParts part members start := by
  intro members
  induction members with
  | nil =>
    intro start
    simp [orParts]
  | cons m rest ih =>
    intro start
    have hstep : orParts part (m :: rest) start = orParts part rest (start ||| part m) := rfl
    obtain ⟨hstart, hrest⟩ := @ih (start ||| part m)
    rw [hstep]
    refine ⟨Nat.left_le_or.trans hstart, ?_⟩
    intro m' hm'
    rcases List.mem_cons.mp hm' with rfl | hm'
    · exact Nat.right_le_or.trans hstart
    · exact hrest m' hm'

theorem orParts_lt {part : Key × Raw → Nat} {w : Nat} :
    ∀ {members : List (Key × Raw)} {start : Nat}, start < 2 ^ w →
      (∀ m ∈ members, part m < 2 ^ w) → orParts part members start < 2 ^ w := by
  intro members
  induction members with
  | nil =>
    intro start hstart _
    exact hstart
  | cons m rest ih =>
    intro start hstart hall
    apply ih (Nat.or_lt_two_pow hstart (hall m List.mem_cons_self))
    intro m' hm'
    exact hall m' (List.mem_cons_of_mem _ hm')

theorem collect_joined {e : Event} {read : Key → Raw → Option Value} {f : Key} (hj : e.joins f) :
    ∀ {members : List (Key × Raw)} {acc : Option Value} {start : Nat},
      (∀ m ∈ members, m.1.field = f → ∀ v, read m.1 m.2 = some v → ∃ n, v = .number n) →
        (acc = none ∧ start = 0 ∨ acc = some (.number start)) →
          (members.foldl (e.collect read f) acc).getD (.number 0) =
            .number (orParts (part read f) members start) := by
  intro members
  induction members with
  | nil =>
    intro acc start _ hacc
    rcases hacc with ⟨rfl, rfl⟩ | rfl <;> rfl
  | cons m rest ih =>
    intro acc start hnum hacc
    have hrest := fun m' hm' => hnum m' (List.mem_cons_of_mem _ hm')
    have hstep : orParts (part read f) (m :: rest) start =
        orParts (part read f) rest (start ||| part read f m) := rfl
    rw [List.foldl_cons, hstep]
    apply ih hrest
    by_cases hfield : m.1.field = f
    · cases hread : read m.1 m.2 with
      | none => simpa [Event.collect, part, hfield, hread] using hacc
      | some v =>
        obtain ⟨n, rfl⟩ := hnum m List.mem_cons_self hfield v hread
        right
        rcases hacc with ⟨rfl, rfl⟩ | rfl
        · simp [Event.collect, part, hfield, hread]
        · simp [Event.collect, part, hfield, hread, Event.put, hj, joinFlags]
    · simpa [Event.collect, part, hfield] using hacc

/-! ## Which of the two values a merged field holds -/

section Merged

variable {e : Event} {p : Payload e} {s : Parsed} {existing after : Record} {f : Key} {v : Value}

theorem Payload.member_unique {m m' : Key × Raw} (hm : m ∈ p.members) (hm' : m' ∈ p.members)
    (hkey : m.1 = m'.1) : m = m' :=
  List.inj_on_of_nodup_map p.distinct hm hm' hkey

theorem record_of_member (hs : e.parse p.members = some s) (hj : ¬ e.joins f) {m : Key × Raw}
    (hm : m ∈ p.members) (hfield : m.1.field = f) :
    s.record f = (e.stored m.1 m.2).getD f.blank ∧
      e.gather Key.value f p.members = m.1.value m.2 := by
  have hkey : m.1 = f := key_of_field hj (p.own m hm) hfield
  have hff : f.field = f := hkey ▸ hfield
  have hmem : (f, m.2) ∈ p.members := by
    rw [← hkey]
    exact hm
  have honly : ∀ m' ∈ p.members, m'.1.field = f → m'.1 = f :=
    fun m' hm' => key_of_field hj (p.own m' hm')
  rw [parse_record hs f, gather_single hff p.distinct honly hmem,
    gather_single hff p.distinct honly hmem, hkey]
  exact ⟨rfl, rfl⟩

theorem joined_stored (hj : e.joins f) :
    ∀ m ∈ p.members, m.1.field = f → ∀ v, e.stored m.1 m.2 = some v → ∃ n, v = .number n := by
  intro m _ hfield v hv
  unfold Event.stored at hv
  split at hv
  · obtain ⟨n, -, hn, -⟩ := joined_read (hfield ▸ hj) hv
    exact ⟨n, hn⟩
  · cases hv

theorem record_joined (hs : e.parse p.members = some s) (hj : e.joins f) :
    s.record f = .number (orParts (part e.stored f) p.members 0) := by
  rw [parse_record hs f, blank_of_joins hj]
  exact collect_joined hj (joined_stored hj) (.inl ⟨rfl, rfl⟩)

theorem record_blank_iff (hs : e.parse p.members = some s) :
    s.record f = f.blank ↔
      ∀ m ∈ p.members, m.1.field = f → e.takes m.1 m.2 → m.1.reader.read m.2 = some f.blank := by
  by_cases hj : e.joins f
  · rw [record_joined hs hj, blank_of_joins hj, Value.number.injEq, orParts_eq_zero_iff]
    simp only [true_and]
    constructor
    · intro hzero m hm hfield htakes
      obtain ⟨v, hv⟩ := readMembers_read hs m hm
      obtain ⟨n, -, rfl, -⟩ := joined_read (hfield ▸ hj) hv
      have hn := hzero m hm
      simp only [part, hfield, if_true, Event.stored, htakes, hv] at hn
      rw [hv, hn]
    · intro hall m hm
      unfold part
      split
      · next hfield =>
        unfold Event.stored
        by_cases htakes : e.takes m.1 m.2
        · rw [if_pos htakes, hall m hm hfield htakes]
        · rw [if_neg htakes]
      · rfl
  · constructor
    · intro hblank m hm hfield htakes
      obtain ⟨v, hv⟩ := readMembers_read hs m hm
      have hrec := (record_of_member hs hj hm hfield).1
      rw [hblank, Event.stored, if_pos htakes, hv, Option.getD_some] at hrec
      rw [hv, hrec]
    · intro hall
      by_cases hex : ∃ m ∈ p.members, m.1.field = f
      · obtain ⟨m, hm, hfield⟩ := hex
        rw [(record_of_member hs hj hm hfield).1, Event.stored]
        by_cases htakes : e.takes m.1 m.2
        · rw [if_pos htakes, hall m hm hfield htakes]
          rfl
        · rw [if_neg htakes]
          rfl
      · push Not at hex
        exact parse_absent hs hex

theorem unmarked_iff (hs : e.parse p.members = some s) :
    (∀ b ∈ e.guard f, b ∉ s.fields) ↔ ∀ b ∈ e.guard f, ∀ m ∈ p.members, b ∉ m.1.marks m.2 := by
  simp only [parse_fields hs]
  push Not
  rfl

theorem owner_cases {i : Key} (h : e.owner f = some i) :
    (e = .memberUpdate ∧ i = .user .id ∧ ∃ k, f = .user k) ∨
      (e = .messageUpdate ∧ i = .author .id ∧ ∃ k, f = .author k) := by
  unfold Event.owner at h
  split at h
  · exact .inl ⟨rfl, (Option.some.inj h).symm, _, rfl⟩
  · exact .inr ⟨rfl, (Option.some.inj h).symm, _, rfl⟩
  · cases h

theorem field_eq_owner {i : Key} (h : e.owner f = some i) (k : Key) : k.field = i ↔ k = i := by
  have hi : i = .user .id ∨ i = .author .id := by
    rcases owner_cases h with ⟨-, hi, -⟩ | ⟨-, hi, -⟩
    · exact .inl hi
    · exact .inr hi
  constructor
  · intro hk
    rcases field_eq k with hkk | ⟨rfl, -⟩ | ⟨rfl, -⟩ | ⟨rfl, -⟩
    · exact hkk ▸ hk
    all_goals
      rcases hi with rfl | rfl <;> cases hk
  · rintro rfl
    rcases hi with rfl | rfl <;> rfl

theorem takes_owner {i : Key} (h : e.owner f = some i) (raw : Raw) : e.takes i raw := by
  rcases owner_cases h with ⟨-, rfl, -⟩ | ⟨-, rfl, -⟩ <;> rfl

theorem unset_iff {i : Key} (hs : e.parse p.members = some s) (h : e.owner f = some i) :
    s.record i = i.blank ↔ p.unset i := by
  rw [record_blank_iff hs]
  unfold Payload.unset
  constructor
  · intro hall m hm hkey
    exact hall m hm ((field_eq_owner h m.1).mpr hkey) (hkey ▸ takes_owner h m.2)
  · intro hall m hm hfield _
    exact hall m hm ((field_eq_owner h m.1).mp hfield)

theorem author_marked {k : UserKey} (hff : (Key.author k).field = .author k) (hk : k ≠ .id) :
    ∃ b, messageGuard (.author k) = some b ∧ b ∈ authorMarks := by
  cases k with
  | id => exact absurd rfl hk
  | publicFlags => cases hff
  | _ => exact ⟨_, rfl, by decide⟩

theorem author_kept {k : UserKey} {p : Payload .messageUpdate}
    (hff : (Key.author k).field = .author k)
    (hblank : ∀ m ∈ p.members, m.1.field = .author k → Event.messageUpdate.takes m.1 m.2 →
      m.1.reader.read m.2 = some (Key.author k).blank)
    (hmark : ∀ b ∈ messageGuard (.author k), ∀ m ∈ p.members, b ∉ m.1.marks m.2) :
    p.unset (.author .id) := by
  intro m hm hkey
  by_cases hk : k = .id
  · subst hk
    exact hblank m hm (by rw [hkey]; rfl) (by rw [hkey]; rfl)
  · obtain ⟨b, hguard, hb⟩ := author_marked hff hk
    have hmem : b ∈ m.1.marks m.2 := by
      rw [hkey]
      exact hb
    exact absurd hmem (hmark b hguard m hm)

/-- **A retained field stays as it is cached.** -/
theorem update_retained (hs : e.parse p.members = some s)
    (hkeys : ∀ f ∈ e.keys, s.record f ≠ f.blank ∧ s.record f = existing f) (hff : f.field = f)
    (h : p.retains f) : e.mergeView s.record existing s.fields f = existing f := by
  have hkeep : (∀ m ∈ p.members, m.1.field = f → e.takes m.1 m.2 →
      m.1.reader.read m.2 = some f.blank) →
      (∀ b ∈ e.guard f, ∀ m ∈ p.members, b ∉ m.1.marks m.2) →
      e.keep s.fields f (s.record f) (existing f) = existing f := by
    intro hblank hmark
    exact if_pos ⟨(unmarked_iff hs).mpr hmark, (record_blank_iff hs).mpr hblank⟩
  unfold Event.mergeView
  cases howner : e.owner f with
  | none =>
    rcases h with ⟨i, hi, -⟩ | ⟨hblank, hmark⟩
    · rw [howner] at hi
      cases hi
    · exact hkeep hblank hmark
  | some i =>
    simp only
    by_cases hid : s.record i = i.blank
    · rw [if_pos hid]
    · rw [if_neg hid]
      have hunset : ¬ p.unset i := fun h => hid ((unset_iff hs howner).mpr h)
      rcases h with ⟨i', hi', hu⟩ | ⟨hblank, hmark⟩
      · rw [howner] at hi'
        exact absurd (Option.some.inj hi' ▸ hu) hunset
      · rcases owner_cases howner with ⟨rfl, rfl, k, rfl⟩ | ⟨rfl, rfl, k, rfl⟩
        · have hsame := (hkeys (.user .id) (by decide)).2
          rw [if_pos hsame]
          exact hkeep hblank hmark
        · exact absurd (author_kept hff hblank hmark) hunset

/-- **Any other field holds what the payload's members store in it.** -/
theorem update_stored (hs : e.parse p.members = some s) (h : ¬ p.retains f) :
    e.mergeView s.record existing s.fields f = s.record f := by
  have hkeep : e.keep s.fields f (s.record f) (existing f) = s.record f := by
    apply if_neg
    rintro ⟨hmark, hblank⟩
    exact h (.inr ⟨(record_blank_iff hs).mp hblank, (unmarked_iff hs).mp hmark⟩)
  unfold Event.mergeView
  cases howner : e.owner f with
  | none => exact hkeep
  | some i =>
    simp only
    have hid : s.record i ≠ i.blank := by
      intro hid
      exact h (.inl ⟨i, howner, (unset_iff hs howner).mp hid⟩)
    rw [if_neg hid]
    split
    · exact hkeep
    · rfl

/-! ## Values that are not taken -/

theorem mark_type {b : Presence} (hb : b = .messageType ∨ b = .channelType)
    (h : b ∈ k.marks raw) : k = .type ∧ ∃ n, raw = .number n := by
  unfold Key.marks at h
  rcases hb with rfl | rfl
  all_goals
    split at h <;> first
    | exact ⟨rfl, _, rfl⟩
    | exact absurd h (by decide)
    | exact absurd (roleMarks_subset h) (by decide)
    | (split at h <;> exact absurd h (by decide))

theorem mark_memberRoles (h : .memberRoles ∈ k.marks raw) :
    k = .roles ∧ ∃ items, raw = .array items ∧ firstIsObject items = false := by
  unfold Key.marks at h
  split at h <;> first
    | exact absurd h (by decide)
    | exact absurd (roleMarks_subset h) (by decide)
    | skip
  next items =>
  split at h
  · exact absurd h (by decide)
  · next hfirst => exact ⟨rfl, items, rfl, by simpa using hfirst⟩

theorem mark_guildCollections : .guildCollections ∉ k.marks raw := by
  intro h
  unfold Key.marks at h
  split at h <;> first
    | exact absurd h (by decide)
    | exact absurd (roleMarks_subset h) (by decide)
    | (split at h <;> exact absurd h (by decide))

theorem untaken_unmarked (hj : ¬ e.joins f) {m : Key × Raw} (hm : m ∈ p.members) (hkey : m.1 = f)
    (htakes : ¬ e.takes m.1 m.2) (hv : m.1.value m.2 = some v) :
    ∀ b ∈ e.guard f, ∀ m' ∈ p.members, b ∉ m'.1.marks m'.2 := by
  intro b hb m' hm' hmark
  have hsame : m'.1 = f → m' = m := fun h => p.member_unique hm' hm (h.trans hkey.symm)
  have howns := p.own m hm
  obtain ⟨k, raw⟩ := m
  simp only at hkey htakes hv howns
  subst hkey
  unfold Event.takes at htakes
  split at htakes
  · exact htakes rfl
  · -- a text or null `type`
    next hraw =>
    have hbits : b = .messageType ∨ b = .channelType := by
      cases e <;> first
        | (cases howns; done)
        | exact .inl (Option.some.inj hb).symm
        | exact .inr (Option.some.inj hb).symm
    obtain ⟨hk, n, hn⟩ := mark_type hbits hmark
    have := hsame hk
    subst this
    exact hraw n hn
  · -- a number `timestamp` says nothing about a text
    cases hv
  · -- an array of `roles` for the other entity
    next items =>
    cases e <;> first
      | (cases howns; done)
      | skip
    · obtain rfl : Presence.guildCollections = b := Option.some.inj hb
      exact mark_guildCollections hmark
    · obtain rfl : Presence.memberRoles = b := Option.some.inj hb
      obtain ⟨hk, items', hitems, hfirst⟩ := mark_memberRoles hmark
      have := hsame hk
      subst this
      cases hitems
      exact htakes (by simp [hfirst])
  · -- the flags of a user are joined
    cases e <;> first
      | exact htakes rfl
      | exact hj rfl
  · cases e <;> first
      | (cases howns; done)
      | exact htakes rfl
      | cases hb
  · cases hv
  · exact htakes rfl

/-! ## The fields an update gives -/

theorem member_of_gather {read : Key → Raw → Option Value} {members : List (Key × Raw)}
    (h : e.gather read f members = some v) : ∃ m ∈ members, m.1.field = f := by
  by_contra hno
  push Not at hno
  unfold Event.gather at h
  rw [gather_other hno] at h
  cases h

theorem field_field (k : Key) : k.field.field = k.field := by
  rcases field_eq k with h | ⟨rfl, -⟩ | ⟨rfl, -⟩ | ⟨rfl, -⟩
  · rw [h, h]
  · rfl
  · rfl
  · rfl

theorem gather_congr {read read' : Key → Raw → Option Value} :
    ∀ {members : List (Key × Raw)} {acc : Option Value},
      (∀ m ∈ members, m.1.field = f → read m.1 m.2 = read' m.1 m.2) →
        members.foldl (e.collect read f) acc = members.foldl (e.collect read' f) acc := by
  intro members
  induction members with
  | nil =>
    intro acc _
    rfl
  | cons m rest ih =>
    intro acc h
    have hstep : e.collect read f acc m = e.collect read' f acc m := by
      unfold Event.collect
      by_cases hfield : m.1.field = f
      · rw [if_pos hfield, if_pos hfield, h m List.mem_cons_self hfield]
      · rw [if_neg hfield, if_neg hfield]
    rw [List.foldl_cons, List.foldl_cons, hstep]
    exact ih fun m' hm' => h m' (List.mem_cons_of_mem _ hm')

theorem value_of_member (hs : e.parse p.members = some s)
    (hgather : e.gather Key.value f p.members = some v) {m : Key × Raw} (hm : m ∈ p.members)
    (hfield : m.1.field = f) : ∃ w, m.1.value m.2 = some w := by
  by_cases hj : e.joins f
  · obtain ⟨r, hr⟩ := readMembers_read hs m hm
    obtain ⟨n, -, -, hn⟩ := joined_read (hfield ▸ hj) hr
    exact ⟨_, hn⟩
  · exact ⟨v, by rw [← (record_of_member hs hj hm hfield).2, hgather]⟩

theorem record_of_whole (hs : e.parse p.members = some s)
    (hgather : e.gather Key.value f p.members = some v) (h : p.whole f) : s.record f = v := by
  have hsame : ∀ m ∈ p.members, m.1.field = f → e.stored m.1 m.2 = m.1.value m.2 := by
    intro m hm hfield
    obtain ⟨htakes, hfits⟩ := h m hm hfield
    obtain ⟨r, hr⟩ := readMembers_read hs m hm
    obtain ⟨w, hw⟩ := value_of_member hs hgather hm hfield
    rw [Event.stored, if_pos htakes, hr, hw, (read_eq_value_iff htakes hr hw).mpr hfits]
  unfold Event.gather at hgather
  rw [parse_record hs f]
  unfold Event.gather
  rw [gather_congr hsame, hgather]
  rfl

theorem stringBuffer_content {cap : Nat} {t : Bytes} {r : Value}
    (h : stringBuffer cap t = some r) : r.content = r := by
  unfold stringBuffer at h
  split at h
  · rw [← Option.some.inj h]
    rfl
  · cases h

theorem nullableStringBuffer_content {cap : Nat} {r : Value}
    (h : nullableStringBuffer cap raw = some r) : r.content = r := by
  cases raw with
  | null =>
    rw [← Option.some.inj h]
    rfl
  | text t => exact stringBuffer_content h
  | _ => cases h

theorem read_content {rd : Reader} {r : Value} (h : rd.read raw = some r) :
    r.content = r := by
  have hnum : ∀ {o : Option Nat}, o.map Value.number = some r → r.content = r := by
    intro o ho
    obtain ⟨n, -, rfl⟩ := Option.map_eq_some_iff.mp ho
    rfl
  unfold Reader.read at h
  split at h
  · exact hnum h
  · exact hnum h
  · exact hnum h
  · exact hnum h
  · exact hnum h
  · exact hnum h
  · rw [← Option.some.inj h]
    rfl
  · exact stringBuffer_content h
  · exact nullableStringBuffer_content h
  · exact hnum h
  · exact nullableStringBuffer_content h
  · exact hnum h
  · exact nullableStringBuffer_content h
  · split at h
    · rw [← Option.some.inj h]
      rfl
    · obtain ⟨ids, -, rfl⟩ := Option.map_eq_some_iff.mp h
      rfl
  · rw [← Option.some.inj h]
    rfl
  · rw [← Option.some.inj h]
    unfold copyComponents
    split <;> rfl
  · rw [← Option.some.inj h]
    rfl
  · cases h

theorem value_content {w : Value} (h : k.value raw = some w) :
    w.content = w := by
  unfold Key.value at h
  split at h
  · cases h
  unfold Shape.value at h
  split at h
  all_goals first
    | (rw [← Option.some.inj h]; rfl)
    | (obtain ⟨n, -, rfl⟩ := Option.map_eq_some_iff.mp h; rfl)
    | cases h

theorem takes_joined_iff {n : Nat} {r : Value} (hj : e.joins k.field)
    (hread : k.reader.read (.number n) = some r) : e.takes k (.number n) ↔ n ≤ u32Max := by
  have hsmall : ∀ {o : Option Nat}, (o.filter (· ≤ u32Max)).map Value.number = some r →
      o = some n → n ≤ u32Max := by
    intro o ho hn
    obtain ⟨w, hw, -⟩ := Option.map_eq_some_iff.mp ho
    rw [hn, Option.filter_eq_some_iff] at hw
    simpa [Option.some.inj hw.1] using hw.2
  rcases joined_key hj with (⟨rfl, rfl⟩ | rfl) | (rfl | rfl) | (rfl | rfl)
  · simp [Event.takes]
  all_goals
    refine iff_of_true rfl (hsmall hread ?_)
    obtain ⟨w, hw, -⟩ := Option.map_eq_some_iff.mp hread
    have hm := Option.eq_some_of_filter_eq_some hw
    rw [hm, u64Direct_eq hm]

/-- A stored field that holds the payload's value is stored whole. -/
theorem whole_of_record (hs : e.parse p.members = some s)
    (hgather : e.gather Key.value f p.members = some v) (hret : ¬ p.retains f)
    (hcontent : (s.record f).content = v.content) : p.whole f := by
  intro m hm hfield
  obtain ⟨r, hr⟩ := readMembers_read hs m hm
  by_cases hj : e.joins f
  · obtain ⟨n, hraw, -, hvalue⟩ := joined_read (hfield ▸ hj) hr
    refine ⟨?_, by rw [hraw]; trivial⟩
    -- the record has 32 bits, and the payload's value has every bit of `n`
    have hrecord := record_joined hs hj
    have hsmall : orParts (part e.stored f) p.members 0 < 2 ^ 32 := by
      apply orParts_lt (by decide)
      intro m' hm'
      unfold part
      split
      · next hfield' =>
        unfold Event.stored
        obtain ⟨r', hr'⟩ := readMembers_read hs m' hm'
        obtain ⟨n', hraw', rfl, -⟩ := joined_read (hfield' ▸ hj) hr'
        by_cases htakes' : e.takes m'.1 m'.2
        · rw [if_pos htakes', hr']
          rw [hraw'] at htakes' hr'
          have hle := (takes_joined_iff (hfield' ▸ hj) hr').mp htakes'
          unfold u32Max at hle
          simp only
          omega
        · rw [if_neg htakes']
          decide
      · decide
    have hvalues : v = .number (orParts (part Key.value f) p.members 0) := by
      have hnum : ∀ m ∈ p.members, m.1.field = f → ∀ v, m.1.value m.2 = some v →
          ∃ n, v = .number n := by
        intro m' hm' hfield' v' hv'
        obtain ⟨r', hr'⟩ := readMembers_read hs m' hm'
        obtain ⟨n', -, -, hn'⟩ := joined_read (hfield' ▸ hj) hr'
        exact ⟨n', Option.some.inj (hv'.symm.trans hn')⟩
      have hall := collect_joined hj hnum (.inl ⟨rfl, rfl⟩)
      unfold Event.gather at hgather
      rw [hgather, Option.getD_some] at hall
      exact hall
    have hn : n ≤ orParts (part Key.value f) p.members 0 := by
      have hpart : part Key.value f m = n := by simp [part, hfield, hvalue]
      exact hpart ▸ le_orParts.2 m hm
    rw [hrecord, hvalues] at hcontent
    have heq : orParts (part e.stored f) p.members 0 = orParts (part Key.value f) p.members 0 :=
      Value.number.inj hcontent
    rw [hraw] at hr ⊢
    apply (takes_joined_iff (hfield ▸ hj) hr).mpr
    unfold u32Max
    omega
  · have hkey : m.1 = f := key_of_field hj (p.own m hm) hfield
    obtain ⟨hrecord, hvalue⟩ := record_of_member hs hj hm hfield
    rw [hgather] at hvalue
    have htakes : e.takes m.1 m.2 := by
      by_contra htakes
      apply hret
      right
      refine ⟨?_, untaken_unmarked hj hm hkey htakes hvalue.symm⟩
      intro m' hm' hfield' htakes'
      have hkey' : m'.1 = f := key_of_field hj (p.own m' hm') hfield'
      exact absurd (p.member_unique hm' hm (hkey'.trans hkey.symm) ▸ htakes') htakes
    refine ⟨htakes, ?_⟩
    rw [hrecord, Event.stored, if_pos htakes, hr, Option.getD_some, read_content hr,
      value_content hvalue.symm] at hcontent
    exact (read_eq_value_iff htakes hr hvalue.symm).mp hcontent

theorem unset_of_authorValue {p : Payload .messageUpdate}
    (h : (.authorValue, Raw.null) ∈ p.members) : p.unset (.author .id) := by
  intro m hm hkey
  have hno := p.author (List.mem_map_of_mem h) .id
  exact absurd (hkey ▸ List.mem_map_of_mem hm) hno

end Merged

/-- **An update leaves its own values in the cache exactly when nothing it
clears is left to an unmarked presence bit and nothing it gives is cut.**  For
each field the payload gives: if the field is retained, it holds the value in
the cache already; otherwise its value is one the entity takes and that fits. -/
theorem update_present_iff {e : Event} (p : Payload e) (existing after : Record)
    (h : e.update p existing = some after) :
    (∀ f v, p.gives f v → (after f).content = v.content) ↔ ∀ f v, p.gives f v →
        (p.retains f → (existing f).content = v.content) ∧ (¬ p.retains f → p.whole f) := by
  obtain ⟨s, hs, hkeys, rfl⟩ := update_cases h
  have hpoint : ∀ f v, p.gives f v →
      ((e.mergeView s.record existing s.fields f).content = v.content ↔
        (p.retains f → (existing f).content = v.content) ∧ (¬ p.retains f → p.whole f)) := by
    intro f v hgives
    have hff : f.field = f := by
      rcases hgives with hgather | ⟨-, -, hff, -⟩
      · obtain ⟨m, -, hfield⟩ := member_of_gather hgather
        rw [← hfield]
        exact field_field m.1
      · exact hff
    by_cases hret : p.retains f
    · rw [update_retained hs hkeys hff hret]
      simp [hret]
    · rw [update_stored hs hret]
      rcases hgives with hgather | ⟨hnull, ⟨k, rfl⟩, -, -⟩
      · constructor
        · intro hcontent
          exact ⟨fun hr => absurd hr hret, fun _ => whole_of_record hs hgather hret hcontent⟩
        · rintro ⟨-, hwhole⟩
          rw [record_of_whole hs hgather (hwhole hret)]
      · exfalso
        have howns := p.own _ hnull
        cases e <;> first
          | (cases howns; done)
          | exact hret (.inl ⟨.author .id, rfl, unset_of_authorValue hnull⟩)
  constructor
  · intro hall f v hgives
    exact (hpoint f v hgives).mp (hall f v hgives)
  · intro hall f v hgives
    exact (hpoint f v hgives).mpr (hall f v hgives)

/-- A member update that carries a nickname, or `null` for none. -/
def nickUpdate (nick : Option Bytes) : Payload .memberUpdate where
  members := [(.guildId, .number 1), (.user .id, .number 2), (.nick, nick.elim .null .text)]
  distinct := by simp
  own := by
    intro m hm
    simp only [List.mem_cons, List.not_mem_nil, or_false] at hm
    rcases hm with rfl | rfl | rfl <;> rfl
  author := by
    intro h
    simp at h

/-- The cached member of the same user. -/
def member (nick : Option Bytes) : Record
  | .guildId => .number 1
  | .user .id => .number 2
  | .nick => .text nick
  | f => f.blank

theorem update_present_renamed :
    ∃ after, Event.memberUpdate.update (nickUpdate (some [0x61])) (member none) = some after ∧
      ∀ f v, (nickUpdate (some [0x61])).gives f v → (after f).content = v.content := by
  refine ⟨_, rfl, (update_present_iff (nickUpdate (some [0x61])) (member none) _ rfl).mpr ?_⟩
  intro f v hgives
  rcases hgives with hgather | ⟨hnull, -⟩
  · obtain ⟨m, hm, rfl⟩ := member_of_gather hgather
    have hwhole : (nickUpdate (some [0x61])).whole m.1.field := by
      intro m' hm' _
      simp only [nickUpdate, List.mem_cons, List.not_mem_nil, or_false] at hm'
      rcases hm' with rfl | rfl | rfl
      · exact ⟨rfl, trivial⟩
      · exact ⟨rfl, trivial⟩
      · exact ⟨rfl, fun _ => by decide⟩
    refine ⟨?_, fun _ => hwhole⟩
    rintro (⟨i, hi, hunset⟩ | ⟨hblank, -⟩)
    · rcases owner_cases hi with ⟨-, rfl, -⟩ | ⟨hno, -, -⟩
      · exact absurd (hunset (.user .id, .number 2) (by simp [nickUpdate]) rfl) (by decide)
      · cases hno
    · have hread := hblank m hm rfl (hwhole m hm rfl).1
      simp only [nickUpdate, List.mem_cons, List.not_mem_nil, or_false] at hm
      rcases hm with rfl | rfl | rfl <;> exact absurd hread (by decide)
  · simp [nickUpdate] at hnull

/-- The update that takes a nickname away leaves the cached one. -/
theorem null_nick_update_keeps_nick :
    ¬ ∀ (p : Payload .memberUpdate) (existing after : Record),
      Event.memberUpdate.update p existing = some after →
        ∀ f v, p.gives f v → (after f).content = v.content := by
  intro h
  have hnick := h (nickUpdate none) (member (some [0x61])) _ rfl .nick (.text none) (.inl rfl)
  exact absurd hnick (by decide)

end Dcc.Cache.Merge
