import Dcc.Commands.Snapshot
import Dcc.Components.Serialize
import Dcc.Session.Export

/-!
# Pieces that write a value

The pieces of a document write a value when none of them fails and together they are its compact
text.  The value can then be read back, and each of its objects has each member at most once.

* `Writes` — the pieces write a value;
* `writes_object`, `writes_array` — objects member by member, and arrays item by item;
* `appendSteps_puts` — pieces that write a value, in a buffer;
* `parse_text` — the parser gives the value back.
-/

namespace Dcc.Components

open Dcc.Json Dcc.Json.Grammar Dcc.Commands Dcc.Rest Dcc.Session Decimal

/-- Each object in a value has each member at most once. -/
inductive Distinct : Value → Prop
  | bool (boolean : Bool) : Distinct (.bool boolean)
  | number (text : Bytes) : Distinct (.number text)
  | string (text : Bytes) : Distinct (.string text)
  | array {items : List Value} (h : ∀ item ∈ items, Distinct item) : Distinct (.array items)
  | object {entries : List (Bytes × Value)} (hkeys : (entries.map Prod.fst).Nodup)
      (h : ∀ entry ∈ entries, Distinct entry.2) : Distinct (.object entries)

/-- The pieces write a value. -/
structure Writes (steps : Steps) (v : Value) : Prop where
  puts : Puts steps (appendJsonValue v)
  readable : Readable v
  distinct : Distinct v

/-! ## Scalars -/

/-- The number of a `uint32_t`. -/
def u32Value (value : UInt32) : Value := .number (decimalText value.toNat)

/-- A flag. -/
def boolValue (value : UInt8) : Value := .bool (value ≠ 0)

/-- A snowflake, which is a string. -/
def snowflakeValue (value : UInt64) : Value := .string (decimalText value.toNat)

theorem writes_u32 (value : UInt32) : Writes (u32Steps value) (u32Value value) :=
  ⟨puts_ok _, .number (number_decimalText _), .number _⟩

theorem writes_bool (value : UInt8) : Writes (boolSteps value) (boolValue value) := by
  refine ⟨?_, .bool _, .bool _⟩
  by_cases h : value = 0
  · simpa [boolSteps, boolValue, appendJsonValue, h] using puts_ok litFalse
  · simpa [boolSteps, boolValue, appendJsonValue, h] using puts_ok litTrue

theorem writes_snowflake (value : UInt64) :
    Writes (snowflakeSteps value) (snowflakeValue value) := by
  have hkey := plainKey_of_asciiKey (asciiKey_decimal value.toNat)
  refine ⟨?_, .string hkey.1, .string _⟩
  rw [snowflakeValue, appendJsonValue, appendEscapedString, hkey.2]
  exact puts_ok _

theorem writes_string {text : Bytes} (h : PlainText text) :
    Writes (escapedString (some text)) (.string text) := by
  refine ⟨⟨[chQuote] :: (text.map escapeByte ++ [[chQuote]]), ?_, ?_⟩, .string h, .string _⟩
  · simp [escapedString]
  · rw [List.flatten_cons, List.flatten_append, ← List.flatMap_def]
    rfl

/-! ## Objects -/

/-- A field is written where it is there. -/
def FieldWrites (field : Bytes × Option Steps) (value : Bytes × Option Value) : Prop :=
  field.1 = value.1 ∧ Option.Rel Writes field.2 value.2

/-- Fields are written in their order. -/
abbrev FieldsWrite : List (Bytes × Option Steps) → List (Bytes × Option Value) → Prop :=
  List.Forall₂ FieldWrites

/-- A member is written. -/
def MemberWrites (member : Bytes × Steps) (entry : Bytes × Value) : Prop :=
  member.1 = entry.1 ∧ Writes member.2 entry.2

theorem FieldsWrite.present {fields : List (Bytes × Option Steps)}
    {values : List (Bytes × Option Value)} (h : FieldsWrite fields values) :
    List.Forall₂ MemberWrites (present fields) (present values) := by
  induction h with
  | nil => exact .nil
  | @cons field value fields values hfield _ ih =>
    obtain ⟨key, steps⟩ := field
    obtain ⟨key', value⟩ := value
    obtain ⟨hkey, hrel⟩ := hfield
    cases hrel with
    | none => exact ih
    | some hwrites => exact .cons ⟨hkey, hwrites⟩ ih

theorem puts_memberPrefix (first : Bool) (name : Bytes) :
    Puts (memberPrefix first name)
      ((if first then [] else [chComma]) ++ chQuote :: (name ++ [chQuote, chColon])) := by
  refine ⟨[if first then [chQuote] else [chComma, chQuote], name, [chQuote, chColon]], rfl, ?_⟩
  cases first with
  | true => simp
  | false => simp

theorem puts_member {member : Bytes × Steps} {entry : Bytes × Value} (first : Bool)
    (h : MemberWrites member entry) (hkey : asciiKey entry.1 = true) :
    Puts (memberPrefix first member.1 ++ member.2) ((if first then [] else [chComma]) ++
      memberText (entry.1.flatMap escapeByte) (appendJsonValue entry.2)) := by
  have hputs := (puts_memberPrefix first member.1).append h.2.puts
  rw [h.1] at hputs ⊢
  rw [(plainKey_of_asciiKey hkey).2, memberText]
  simpa using hputs

section

variable {fields : List (Bytes × Steps)} {entries : List (Bytes × Value)}
  (h : List.Forall₂ MemberWrites fields entries)
include h

theorem puts_members_more (hkeys : ∀ entry ∈ entries, asciiKey entry.1 = true) :
    Puts (members false fields)
      ((appendJsonEntries entries).flatMap fun text => chComma :: text) := by
  induction h with
  | nil => exact puts_nil
  | @cons member entry fields entries hmember _ ih =>
    have hfirst := puts_member false hmember (hkeys entry List.mem_cons_self)
    have hrest := ih fun other hother => hkeys other (List.mem_cons_of_mem _ hother)
    rw [members, appendJsonEntries, List.flatMap_cons]
    exact hfirst.append hrest

theorem puts_members (hkeys : ∀ entry ∈ entries, asciiKey entry.1 = true) :
    Puts (members true fields) (joined (appendJsonEntries entries)) := by
  cases h with
  | nil => exact puts_nil
  | @cons member entry fields entries hmember hmembers =>
    have hfirst := puts_member true hmember (hkeys entry List.mem_cons_self)
    have hrest := puts_members_more hmembers fun other hother =>
      hkeys other (List.mem_cons_of_mem _ hother)
    rw [members, appendJsonEntries, joined_cons]
    exact hfirst.append hrest

theorem exists_member :
    ∀ entry ∈ entries, ∃ steps, Writes steps entry.2 := by
  induction h with
  | nil => exact fun entry hentry => by cases hentry
  | @cons member first fields entries hmember _ ih =>
    intro entry hentry
    rcases List.mem_cons.mp hentry with rfl | hentry
    · exact ⟨_, hmember.2⟩
    · exact ih entry hentry

end

theorem keys_present (values : List (Bytes × Option Value)) :
    List.Sublist ((present values).map Prod.fst) (values.map Prod.fst) := by
  induction values with
  | nil => exact List.Sublist.slnil
  | cons value values ih =>
    obtain ⟨key, value⟩ := value
    cases value with
    | none => exact ih.cons _
    | some v => exact ih.cons_cons _

/-- **An object is written member by member.** -/
theorem writes_object {fields : List (Bytes × Option Steps)} {values : List (Bytes × Option Value)}
    (h : FieldsWrite fields values) (hkeys : (values.map Prod.fst).Nodup)
    (hascii : (values.map Prod.fst).all asciiKey = true) :
    Writes (object fields) (.object (present values)) := by
  have hmembers := h.present
  have hkey : ∀ entry ∈ present values, asciiKey entry.1 = true := fun entry hentry =>
    List.all_eq_true.mp hascii _ ((keys_present values).subset (List.mem_map_of_mem hentry))
  refine ⟨?_, .object (fun entry hentry => (plainKey_of_asciiKey (hkey entry hentry)).1) ?_,
    .object ((keys_present values).nodup hkeys) ?_⟩
  · rw [object, appendJsonValue]
    exact ((puts_ok [chLBrace]).append (puts_members hmembers hkey)).append (puts_ok [chRBrace])
  · intro entry hentry
    obtain ⟨steps, hwrites⟩ := exists_member hmembers entry hentry
    exact hwrites.readable
  · intro entry hentry
    obtain ⟨steps, hwrites⟩ := exists_member hmembers entry hentry
    exact hwrites.distinct

/-! ## Arrays -/

section

variable {α : Type} {write : α → Steps} {value : α → Value} {list : List α}
  (h : ∀ item ∈ list, Writes (write item) (value item))
include h

theorem puts_elements_more :
    Puts (elements false (list.map write))
      ((appendJsonItems (list.map value)).flatMap fun text => chComma :: text) := by
  induction list with
  | nil => exact puts_nil
  | cons item list ih =>
    have hfirst := (puts_ok [chComma]).append (h item List.mem_cons_self).puts
    have hrest := ih fun other hother => h other (List.mem_cons_of_mem _ hother)
    rw [List.map_cons, List.map_cons, elements, appendJsonItems, List.flatMap_cons]
    exact hfirst.append hrest

theorem puts_elements :
    Puts (elements true (list.map write)) (joined (appendJsonItems (list.map value))) := by
  cases list with
  | nil => exact puts_nil
  | cons item list =>
    have hrest := puts_elements_more fun other hother => h other (List.mem_cons_of_mem _ hother)
    rw [List.map_cons, List.map_cons, elements, appendJsonItems, joined_cons]
    exact (h item List.mem_cons_self).puts.append hrest

/-- **An array is written item by item.** -/
theorem writes_elements :
    Writes (.ok [chLBracket] :: (elements true (list.map write) ++ [.ok [chRBracket]]))
      (.array (list.map value)) := by
  refine ⟨?_, .array fun v hv => ?_, .array fun v hv => ?_⟩
  · rw [appendJsonValue]
    exact ((puts_ok [chLBracket]).append (puts_elements h)).append (puts_ok [chRBracket])
  · obtain ⟨item, hitem, rfl⟩ := List.mem_map.mp hv
    exact (h item hitem).readable
  · obtain ⟨item, hitem, rfl⟩ := List.mem_map.mp hv
    exact (h item hitem).distinct

end

/-- An array behind a null pointer has no items. -/
def Span.Backed {α : Type} (values : Span α) : Prop := values.count = values.list.length

theorem writes_array {α : Type} {write : α → Steps} {value : α → Value} {values : Span α}
    (hbacked : values.Backed) (h : ∀ item ∈ values.list, Writes (write item) (value item)) :
    Writes (array write values) (.array (values.list.map value)) := by
  cases values with
  | null count =>
    rw [array, if_pos (show count = 0 from hbacked)]
    have hempty : Writes (.ok [chLBracket] :: (elements true (([] : List α).map write) ++
        [.ok [chRBracket]])) (.array (([] : List α).map value)) := writes_elements h
    exact hempty
  | items address list => exact writes_elements h

/-! ## Reading back -/

/-- **What is written of a value is read back as the value.** -/
theorem parse_text {v : Value} (h : Readable v) : parse (appendJsonValue v) = .ok v := by
  have htext : Text v (appendJsonValue v) := item_of_derives (derives_appendJsonValue h)
  have hparse := (parse_ok_iff _ v.terminated).mpr ⟨_, htext, rfl⟩
  rwa [h.terminated_eq] at hparse

/-- **Writing and reading again changes nothing.**  On every input: where the parser returns a tree,
what is written of the tree is parsed to the same tree. -/
theorem parse_rewrite (input : Bytes) :
    (parse input).bind (fun tree => parse (appendJsonValue tree)) = parse input := by
  cases hparse : parse input with
  | error status => rfl
  | ok tree =>
    obtain ⟨v, htext, rfl⟩ := (parse_ok_iff input tree).mp hparse
    exact parse_text (Derives.readable htext)

end Dcc.Components
