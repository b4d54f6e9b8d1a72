import Dcc.Commands.Plan
import Dcc.Json.Pieces
import Dcc.Lib.Decimal

/-!
# The payload of a command

`dcc_application_command_builder_append_json` writes the members a builder holds, in a
fixed order: names and descriptions as escaped strings, numbers and flags, and the members
that the caller spelled as JSON, which are copied as they are.  Options nest.  The buffer
writes are a `Piece`: `dcc_command_json_member_prefix` puts a comma before every member but
the first, and so does `Piece.text`.

A member that a builder does not hold is `none`.  The present bit over a null pointer,
sizes and versions of the structures are not represented; the buffer is taken to grow.

* `serializer`: what the registry calls on a builder;
* `commandPiece_wellFormed`: what is written of a builder whose members are JSON is JSON.
-/

namespace Dcc.Commands

open Dcc.Json Dcc.Json.Grammar Decimal

/-! ## Builders -/

/-- A `double`.  `"%.17g"` tells the finite doubles apart, so a finite one is the text it
prints, a JSON number; the others print letters. -/
inductive Double
  | finite (text : Bytes) (h : Number text)
  | infinite (text : Bytes)

/-- The text of `dcc_command_json_append_double`. -/
def Double.text : Double → Bytes
  | .finite text _ => text
  | .infinite text => text

/-- The value of a choice, by its `value_type`. -/
inductive ChoiceValue
  | string (text : Bytes)
  | integer (value : Int64)
  | number (value : Double)

/-- `dcc_autocomplete_choice_t`. -/
structure Choice where
  name : Option Bytes
  nameLocalizationsJson : Option Bytes
  value : Option ChoiceValue

/-- The members of a `dcc_application_command_option_builder_t` besides the structured
options in it. -/
structure OptionMembers where
  name : Option Bytes
  description : Option Bytes
  type : Option UInt32
  nameLocalizationsJson : Option Bytes
  descriptionLocalizationsJson : Option Bytes
  choicesJson : Option Bytes
  choices : Option (List Choice)
  optionsJson : Option Bytes
  channelTypes : Option (List UInt32)
  minIntegerValue : Option Int64
  maxIntegerValue : Option Int64
  minNumberValue : Option Double
  maxNumberValue : Option Double
  required : Option UInt8
  autocomplete : Option UInt8

/-- `dcc_application_command_option_builder_t`. -/
structure OptionBuilder where
  members : OptionMembers
  options : Option (List OptionBuilder)

/-- `default_member_permissions` and `default_member_permissions_null`. -/
structure Permissions where
  permissions : UInt64
  null : UInt8

/-- The members of a `dcc_application_command_builder_t` besides its name and type. -/
structure Members where
  nameLocalizationsJson : Option Bytes
  description : Option Bytes
  descriptionLocalizationsJson : Option Bytes
  optionsJson : Option Bytes
  options : Option (List OptionBuilder)
  defaultMemberPermissions : Option Permissions
  dmPermission : Option UInt8
  nsfw : Option UInt8
  integrationTypesJson : Option Bytes
  contextsJson : Option Bytes

/-! ## The serializer -/

/-- `dcc_command_json_append_u32` and the digits of `dcc_command_json_append_u64_string`. -/
def natText (n : Nat) : Bytes := decimalText n

/-- `dcc_command_json_append_i64`. -/
def i64Text (value : Int64) : Bytes :=
  if value.toInt < 0 then chMinus :: decimalText value.toInt.natAbs
  else decimalText value.toInt.natAbs

/-- A string member of `dcc_command_json_append_string_member`. -/
def stringPiece (text : Bytes) : Piece := .value (.string text)

/-- A number that is printed. -/
def numberPiece (text : Bytes) : Piece := .value (.number text)

/-- `"true"` or `"false"`. -/
def flagPiece (flag : UInt8) : Piece := .value (.bool (flag != 0))

/-- The fields that are there. -/
def present {α : Type} (fields : List (Bytes × Option α)) : List (Bytes × α) :=
  fields.filterMap fun field => field.2.map fun value => (field.1, value)

/-- An object with the fields that are there. -/
def objectPiece (fields : List (Bytes × Option Piece)) : Piece := .object (present fields)

/-- `dcc_command_choice_matches_option`. -/
def choiceMatchesOption : ChoiceValue → UInt32 → Bool
  | .string _, type => type == 3
  | .integer _, type => type == 4
  | .number _, type => type == 10

/-- The test for a finite number in `dcc_autocomplete_choice_semantic_validate`. -/
def choiceFinite : ChoiceValue → Bool
  | .number (.infinite _) => false
  | _ => true

/-- The value of a choice. -/
def choiceValuePiece : ChoiceValue → Piece
  | .string text => stringPiece text
  | .integer value => numberPiece (i64Text value)
  | .number value => numberPiece value.text

/-- `dcc_command_option_append_choice`. -/
def choicePiece (type : UInt32) (choice : Choice) : Except Status Piece :=
  match choice.name, choice.value with
  | some name, some value =>
    if choiceFinite value && choiceMatchesOption value type then
      .ok (objectPiece [(asciiText "name", some (stringPiece name)),
        (asciiText "name_localizations", choice.nameLocalizationsJson.map .raw),
        (asciiText "value", some (choiceValuePiece value))])
    else .error .invalidArg
  | _, _ => .error .invalidArg

/-- The loop over the choices. -/
def choicePieces (type : UInt32) : List Choice → Except Status (List Piece)
  | [] => .ok []
  | choice :: choices =>
    match choicePiece type choice, choicePieces type choices with
    | .ok piece, .ok pieces => .ok (piece :: pieces)
    | _, _ => .error .invalidArg

/-- `DCC_AUTOCOMPLETE_MAX_CHOICES`. -/
def maxChoices : Nat := 25

/-- `dcc_command_option_append_choices`: the choices as JSON come before the structured
ones, which an option with autocompletion may not have. -/
def choicesField (option : OptionMembers) (type : UInt32) : Except Status (Option Piece) :=
  match option.choicesJson, option.choices with
  | some json, _ => .ok (some (.raw json))
  | none, some (choice :: choices) =>
    if maxChoices < (choice :: choices).length then .error .invalidArg
    else if option.autocomplete.any (· != 0) then .error .invalidArg
    else (choicePieces type (choice :: choices)).map fun pieces => some (.array pieces)
  | none, _ => .ok none

/-- `dcc_command_option_append_channel_types`. -/
def channelTypesField (option : OptionMembers) : Option Piece :=
  match option.channelTypes with
  | some (type :: types) =>
    some (.array ((type :: types).map fun type => numberPiece (natText type.toNat)))
  | _ => none

/-- The members of an option, in the order of `dcc_command_option_append_json`. -/
def optionFields (option : OptionMembers) (name description : Bytes) (type : UInt32)
    (choices nested : Option Piece) : List (Bytes × Option Piece) :=
  [(asciiText "type", some (numberPiece (natText type.toNat))),
    (asciiText "name", some (stringPiece name)),
    (asciiText "description", some (stringPiece description)),
    (asciiText "name_localizations", option.nameLocalizationsJson.map .raw),
    (asciiText "description_localizations", option.descriptionLocalizationsJson.map .raw),
    (asciiText "required", option.required.map flagPiece),
    (asciiText "choices", choices),
    (asciiText "options", nested),
    (asciiText "channel_types", channelTypesField option),
    (asciiText "autocomplete", option.autocomplete.map flagPiece),
    (asciiText "min_value", option.minIntegerValue.map fun n => numberPiece (i64Text n)),
    (asciiText "max_value", option.maxIntegerValue.map fun n => numberPiece (i64Text n)),
    (asciiText "min_value", option.minNumberValue.map fun x => numberPiece x.text),
    (asciiText "max_value", option.maxNumberValue.map fun x => numberPiece x.text)]

/-- The options of a command or of an option: as JSON, or the array of the structured ones
when there are any. -/
def optionsMember (json : Option Bytes) (count : Nat) (pieces : Except Status (List Piece)) :
    Except Status (Option Piece) :=
  match json with
  | some json => .ok (some (.raw json))
  | none => if count = 0 then .ok none else pieces.map fun pieces => some (.array pieces)

/-- `dcc_command_option_append_json`, given what its nested options come to. -/
def optionObject (option : OptionMembers) (nestedOptions : Except Status (Option Piece)) :
    Except Status Piece :=
  match option.name, option.description, option.type with
  | some name, some description, some type =>
    if type < 1 ∨ 11 < type then .error .invalidArg
    else
      match choicesField option type, nestedOptions with
      | .ok choices, .ok nested =>
        .ok (objectPiece (optionFields option name description type choices nested))
      | _, _ => .error .invalidArg
  | _, _, _ => .error .invalidArg

mutual

/-- `dcc_command_option_append_json`, with `dcc_command_option_append_nested`. -/
def optionPiece : OptionBuilder → Except Status Piece
  | ⟨members, none⟩ => optionObject members (optionsMember members.optionsJson 0 (.ok []))
  | ⟨members, some options⟩ => optionObject members
      (optionsMember members.optionsJson options.length (optionPieces options))

/-- The loop of `dcc_application_command_option_builder_append_array_json`. -/
def optionPieces : List OptionBuilder → Except Status (List Piece)
  | [] => .ok []
  | option :: options =>
    match optionPiece option, optionPieces options with
    | .ok piece, .ok pieces => .ok (piece :: pieces)
    | _, _ => .error .invalidArg

end

/-- The options of a command. -/
def commandOptions (members : Members) : Except Status (Option Piece) :=
  match members.options with
  | some options => optionsMember members.optionsJson options.length (optionPieces options)
  | none => optionsMember members.optionsJson 0 (.ok [])

/-- The permissions: `null`, or the number in a string. -/
def permissionsPiece (permissions : Permissions) : Piece :=
  if permissions.null != 0 then .value .null
  else stringPiece (natText permissions.permissions.toNat)

/-- The members of a command in the order of
`dcc_application_command_builder_append_identity_json` and
`dcc_application_command_builder_append_payload_json`. -/
def commandFields (command : Builder Members) (options : Option Piece) :
    List (Bytes × Option Piece) :=
  [(asciiText "name", command.name.map stringPiece),
    (asciiText "name_localizations", command.members.nameLocalizationsJson.map .raw),
    (asciiText "description", command.members.description.map stringPiece),
    (asciiText "description_localizations", command.members.descriptionLocalizationsJson.map .raw),
    (asciiText "type", command.type.map fun type => numberPiece (natText type.toNat)),
    (asciiText "options", options),
    (asciiText "default_member_permissions",
      command.members.defaultMemberPermissions.map permissionsPiece),
    (asciiText "dm_permission", command.members.dmPermission.map flagPiece),
    (asciiText "nsfw", command.members.nsfw.map flagPiece),
    (asciiText "integration_types", command.members.integrationTypesJson.map .raw),
    (asciiText "contexts", command.members.contextsJson.map .raw)]

/-- The document of a command. -/
def commandPiece (command : Builder Members) : Except Status Piece :=
  match commandOptions command.members with
  | .ok options => .ok (objectPiece (commandFields command options))
  | .error status => .error status

/-- The checks of `dcc_application_command_builder_validate_create` on the members. -/
def membersValid (command : Builder Members) : Bool :=
  let members := command.members
  let type := builderType command
  members.defaultMemberPermissions.all (·.null ≤ 1) && members.dmPermission.all (· ≤ 1) &&
    members.nsfw.all (· ≤ 1) &&
    if type = chatInput ∨ type = primaryEntryPoint then members.description.any (· ≠ [])
    else
      members.description.isNone && members.descriptionLocalizationsJson.isNone &&
        members.optionsJson.isNone && members.options.isNone

/-- `dcc_application_command_builder_build_json` and the checks of the registry. -/
def serializer : Serializer Members where
  membersValid := membersValid
  buildJson command :=
    match commandPiece command with
    | .ok piece => .ok piece.text
    | .error status => .error status

/-! ## Builders whose members are JSON -/

/-- The text spells a JSON value. -/
def IsJson (text : Bytes) : Prop := ∃ v, Text v text

/-- A finite double. -/
def Double.IsFinite : Double → Prop
  | .finite _ _ => True
  | .infinite _ => False

/-- The value of a choice prints as JSON. -/
def ChoiceValue.Json : ChoiceValue → Prop
  | .string text => PlainText text
  | .integer _ => True
  | .number value => value.IsFinite

/-- The texts of a choice are UTF-8, and what it holds as JSON is JSON. -/
structure Choice.Json (choice : Choice) : Prop where
  name : ∀ text ∈ choice.name, PlainText text
  nameLocalizations : ∀ text ∈ choice.nameLocalizationsJson, IsJson text
  value : ∀ value ∈ choice.value, value.Json

/-- The texts of an option are UTF-8, its numbers are finite, and what it holds as JSON is
JSON. -/
structure OptionMembers.Json (option : OptionMembers) : Prop where
  name : ∀ text ∈ option.name, PlainText text
  description : ∀ text ∈ option.description, PlainText text
  nameLocalizations : ∀ text ∈ option.nameLocalizationsJson, IsJson text
  descriptionLocalizations : ∀ text ∈ option.descriptionLocalizationsJson, IsJson text
  choicesJson : ∀ text ∈ option.choicesJson, IsJson text
  choices : ∀ choices ∈ option.choices, ∀ choice ∈ choices, choice.Json
  optionsJson : ∀ text ∈ option.optionsJson, IsJson text
  minNumber : ∀ value ∈ option.minNumberValue, value.IsFinite
  maxNumber : ∀ value ∈ option.maxNumberValue, value.IsFinite

/-- So it is for an option and for every option in it. -/
inductive OptionBuilder.Json : OptionBuilder → Prop
  | mk {option : OptionBuilder} (members : option.members.Json)
      (options : ∀ options ∈ option.options, ∀ nested ∈ options, nested.Json) : Json option

/-- The texts of a command and of its options are UTF-8, and what it holds as JSON is
JSON. -/
structure Builder.Json (command : Builder Members) : Prop where
  name : ∀ text ∈ command.name, PlainText text
  nameLocalizations : ∀ text ∈ command.members.nameLocalizationsJson, IsJson text
  description : ∀ text ∈ command.members.description, PlainText text
  descriptionLocalizations : ∀ text ∈ command.members.descriptionLocalizationsJson, IsJson text
  optionsJson : ∀ text ∈ command.members.optionsJson, IsJson text
  options : ∀ options ∈ command.members.options, ∀ option ∈ options, option.Json
  integrationTypes : ∀ text ∈ command.members.integrationTypesJson, IsJson text
  contexts : ∀ text ∈ command.members.contextsJson, IsJson text

/-! ## What is written of them is JSON -/

/-- Printable ASCII without quotes and backslashes. -/
def asciiKey (key : Bytes) : Bool :=
  key.all fun b => 0x20 ≤ b && b < 0x80 && b != chQuote && b != chBackslash

theorem plainKey_of_asciiKey {key : Bytes} (h : asciiKey key = true) : Piece.PlainKey key := by
  have hbyte : ∀ b ∈ key, 0x20 ≤ b.toNat ∧ b.toNat < 0x80 ∧ b.toNat ≠ 0x22 ∧ b.toNat ≠ 0x5c := by
    intro b hb
    have hb := List.all_eq_true.mp h b hb
    simp only [Bool.and_eq_true, decide_eq_true_eq, bne_iff_ne, ne_eq, UInt8.le_iff_toNat_le,
      UInt8.lt_iff_toNat_lt, ← UInt8.toNat_inj] at hb
    exact ⟨hb.1.1.1, hb.1.1.2, hb.1.2, hb.2⟩
  have hchar : ∀ b ∈ key, (Char.ofNat b.toNat).toNat = b.toNat := by
    intro b hb
    have hall : ∀ n < 0x80, (Char.ofNat n).toNat = n := by decide
    exact hall _ (hbyte b hb).2.1
  refine ⟨⟨key.map fun b => Char.ofNat b.toNat, ?_, ?_⟩, ?_⟩
  · calc key = key.flatMap fun b => [b] := by simp
      _ = key.flatMap fun b => encode (Char.ofNat b.toNat) :=
          List.flatMap_congr fun b hb => (encode_ascii (hchar b hb) (hbyte b hb).2.1).symm
      _ = utf8 (key.map fun b => Char.ofNat b.toNat) := by
          rw [utf8, List.flatMap_map]
  · intro c hc
    obtain ⟨b, hb, rfl⟩ := List.mem_map.mp hc
    rw [hchar b hb]
    have := (hbyte b hb).1
    omega
  · calc key.flatMap escapeByte = key.flatMap fun b => [b] :=
          List.flatMap_congr fun b hb => by
            obtain ⟨hctl, _, hquote, hback⟩ := hbyte b hb
            exact escapeByte_plain hctl hquote hback
      _ = key := by simp

variable {α : Type}

theorem mem_present {fields : List (Bytes × Option α)} {entry : Bytes × α} :
    entry ∈ present fields ↔ (entry.1, some entry.2) ∈ fields := by
  simp only [present, List.mem_filterMap, Option.map_eq_some_iff]
  constructor
  · intro h
    obtain ⟨field, hfield, value, hvalue, rfl⟩ := h
    rwa [← hvalue]
  · intro h
    exact ⟨_, h, entry.2, rfl, rfl⟩

theorem objectPiece_wellFormed {fields : List (Bytes × Option Piece)}
    (hkeys : (fields.map Prod.fst).all asciiKey = true)
    (h : ∀ field ∈ fields, ∀ piece ∈ field.2, piece.WellFormed) :
    (objectPiece fields).WellFormed := by
  refine Piece.WellFormed.object (fun entry hentry => ?_) (fun entry hentry => ?_)
  · have hmem := mem_present.mp hentry
    exact plainKey_of_asciiKey (List.all_eq_true.mp hkeys _ (List.mem_map_of_mem hmem))
  · exact h _ (mem_present.mp hentry) entry.2 rfl

theorem int_decimalText (n : Nat) : Grammar.Int (decimalText n) := by
  have hdigit : ∀ c ∈ decimalText n, Digit c := by
    intro c hc
    obtain ⟨hlow, hhigh⟩ := digit_of_mem hc
    exact ⟨UInt8.le_iff_toNat_le.mpr hlow, UInt8.le_iff_toNat_le.mpr hhigh⟩
  cases n with
  | zero => exact Grammar.Int.zero
  | succ n =>
    obtain ⟨c, w, htext, hc⟩ := decimalText_head (Nat.succ_pos n)
    rw [htext] at hdigit ⊢
    exact Grammar.Int.digits ⟨UInt8.le_iff_toNat_le.mpr hc, (hdigit c List.mem_cons_self).2⟩
      fun d hd => hdigit d (List.mem_cons_of_mem c hd)

theorem number_decimalText (n : Nat) : Number (decimalText n) := by
  have hnumber := Number.mk (.inl rfl) (int_decimalText n) Frac.absent Exp.absent
  simpa using hnumber

theorem number_i64Text (value : Int64) : Number (i64Text value) := by
  unfold i64Text
  split
  · have hnumber := Number.mk (.inr rfl) (int_decimalText value.toInt.natAbs) Frac.absent
      Exp.absent
    simpa using hnumber
  · exact number_decimalText _

theorem plainText_natText (n : Nat) : PlainText (natText n) := by
  refine (plainKey_of_asciiKey (List.all_eq_true.mpr fun b hb => ?_)).1
  obtain ⟨hlow, hhigh⟩ := digit_of_mem hb
  simp only [Bool.and_eq_true, decide_eq_true_eq, bne_iff_ne, ne_eq, UInt8.le_iff_toNat_le,
    UInt8.lt_iff_toNat_lt, ← UInt8.toNat_inj]
  refine ⟨⟨⟨?_, ?_⟩, ?_⟩, ?_⟩
  · exact Nat.le_trans (by decide) hlow
  · exact Nat.lt_of_le_of_lt hhigh (by decide)
  · intro h
    rw [h] at hlow
    exact absurd hlow (by decide)
  · intro h
    rw [h] at hhigh
    exact absurd hhigh (by decide)

theorem stringPiece_wellFormed {text : Bytes} (h : PlainText text) :
    (stringPiece text).WellFormed := .value (.string h)

theorem numberPiece_wellFormed {text : Bytes} (h : Number text) :
    (numberPiece text).WellFormed := .value (.number h)

theorem flagPiece_wellFormed (flag : UInt8) : (flagPiece flag).WellFormed := .value (.bool _)

theorem number_of_isFinite {x : Double} (h : x.IsFinite) : Number x.text := by
  cases x with
  | finite text hnumber => exact hnumber
  | infinite text => exact h.elim

theorem wellFormed_of_map {member : Option α} {f : α → Piece}
    (h : ∀ x ∈ member, (f x).WellFormed) : ∀ piece ∈ member.map f, piece.WellFormed := by
  intro piece hpiece
  obtain ⟨x, hx, rfl⟩ := Option.map_eq_some_iff.mp hpiece
  exact h x hx

theorem choiceKeys_ascii :
    [asciiText "name", asciiText "name_localizations", asciiText "value"].all asciiKey = true := by
  decide

variable {type : UInt32} {piece : Piece}

theorem choicePiece_wellFormed {choice : Choice}
    (hpiece : choicePiece type choice = .ok piece) (h : choice.Json) : piece.WellFormed := by
  unfold choicePiece at hpiece
  split at hpiece
  · rename_i name value hname hvalue
    split at hpiece
    · cases hpiece
      refine objectPiece_wellFormed choiceKeys_ascii ?_
      simp only [List.mem_cons, List.not_mem_nil, or_false, forall_eq_or_imp, forall_eq,
        Option.mem_some_iff, forall_eq']
      refine ⟨stringPiece_wellFormed (h.name _ hname), wellFormed_of_map fun text htext =>
        .raw (h.nameLocalizations text htext), ?_⟩
      have hjson := h.value _ hvalue
      cases value with
      | string text => exact stringPiece_wellFormed hjson
      | integer value => exact numberPiece_wellFormed (number_i64Text value)
      | number x => exact numberPiece_wellFormed (number_of_isFinite hjson)
    · cases hpiece
  · cases hpiece

/-- A loop that writes the items of a list, and fails where one of them does. -/
structure Loops {α : Type} (item : α → Except Status Piece)
    (loop : List α → Except Status (List Piece)) : Prop where
  nil : loop [] = .ok []
  cons : ∀ x xs, loop (x :: xs) = match item x, loop xs with
    | .ok piece, .ok pieces => .ok (piece :: pieces)
    | _, _ => .error .invalidArg

theorem choicePieces_loops (type : UInt32) : Loops (choicePiece type) (choicePieces type) :=
  ⟨rfl, fun _ _ => rfl⟩

theorem optionPieces_loops : Loops optionPiece optionPieces :=
  ⟨by rw [optionPieces], fun option options => by rw [optionPieces]⟩

variable {pieces : List Piece}

theorem Loops.each {item : α → Except Status Piece}
    {loop : List α → Except Status (List Piece)} (hloop : Loops item loop)
    {P : α → Piece → Prop} {items : List α} (h : loop items = .ok pieces)
    (hitem : ∀ x ∈ items, ∀ piece, item x = .ok piece → P x piece) : List.Forall₂ P items pieces := by
  induction items generalizing pieces with
  | nil =>
    rw [hloop.nil] at h
    cases h
    exact .nil
  | cons x xs ih =>
    rw [hloop.cons] at h
    split at h
    · next first rest hfirst hrest =>
      cases h
      exact .cons (hitem x List.mem_cons_self first hfirst)
        (ih hrest fun y hy => hitem y (List.mem_cons_of_mem x hy))
    · cases h

theorem forall_of_forall₂ {P : Piece → Prop} {items : List α}
    (h : List.Forall₂ (fun _ piece => P piece) items pieces) : ∀ piece ∈ pieces, P piece := by
  induction h with
  | nil => simp
  | cons hfirst _ ih => exact List.forall_mem_cons.mpr ⟨hfirst, ih⟩

variable {option : OptionMembers} {choices : Option Piece}

theorem choicesField_ok (h : choicesField option type = .ok choices) :
    optionsMember option.choicesJson (option.choices.getD []).length
      (choicePieces type (option.choices.getD [])) = .ok choices := by
  unfold choicesField at h
  unfold optionsMember
  split at h
  · next json _ hjson => rwa [hjson]
  · next first rest hnone hsome =>
    rw [hnone, hsome]
    split at h
    · cases h
    · split at h
      · cases h
      · exact h
  · next hnone hother =>
    rw [hnone]
    rcases hchoices : option.choices with _ | ⟨_ | ⟨first, rest⟩⟩
    · exact h
    · exact h
    · exact absurd hchoices (hother first rest)

variable {options : Option Piece}

theorem optionsMember_wellFormed {json : Option Bytes} {count : Nat}
    {pieces : Except Status (List Piece)}
    (hoptions : optionsMember json count pieces = .ok options)
    (hjson : ∀ text ∈ json, IsJson text)
    (hpieces : ∀ items, pieces = .ok items → ∀ item ∈ items, item.WellFormed) :
    ∀ piece ∈ options, piece.WellFormed := by
  intro piece hpiece
  unfold optionsMember at hoptions
  split at hoptions
  · cases hoptions
    cases hpiece
    exact .raw (hjson _ rfl)
  · split at hoptions
    · cases hoptions
      cases hpiece
    · cases pieces with
      | error status => cases hoptions
      | ok items =>
        cases hoptions
        cases hpiece
        exact .array (hpieces items rfl)

theorem choicesField_wellFormed
    (hchoices : choicesField option type = .ok choices) (h : option.Json) :
    ∀ piece ∈ choices, piece.WellFormed := by
  refine optionsMember_wellFormed (choicesField_ok hchoices) h.choicesJson fun items hitems => ?_
  refine forall_of_forall₂
    ((choicePieces_loops type).each hitems fun choice hchoice piece hpiece => ?_)
  refine choicePiece_wellFormed hpiece (h.choices _ ?_ choice hchoice)
  cases hoption : option.choices with
  | none =>
    rw [hoption] at hchoice
    cases hchoice
  | some choices => rfl

theorem channelTypesField_wellFormed (option : OptionMembers) :
    ∀ piece ∈ channelTypesField option, piece.WellFormed := by
  intro piece hpiece
  unfold channelTypesField at hpiece
  split at hpiece
  · cases hpiece
    refine .array fun item hitem => ?_
    obtain ⟨type, _, rfl⟩ := List.mem_map.mp hitem
    exact numberPiece_wellFormed (number_decimalText _)
  · cases hpiece

theorem optionKeys_ascii :
    [asciiText "type", asciiText "name", asciiText "description", asciiText "name_localizations",
      asciiText "description_localizations", asciiText "required", asciiText "choices",
      asciiText "options", asciiText "channel_types", asciiText "autocomplete",
      asciiText "min_value", asciiText "max_value", asciiText "min_value",
      asciiText "max_value"].all asciiKey = true := by
  decide

theorem optionObject_wellFormed {nested : Except Status (Option Piece)}
    (hpiece : optionObject option nested = .ok piece) (h : option.Json)
    (hnested : ∀ options, nested = .ok options → ∀ piece ∈ options, piece.WellFormed) :
    piece.WellFormed := by
  unfold optionObject at hpiece
  split at hpiece
  · rename_i name description type hname hdescription htype
    split at hpiece
    · cases hpiece
    · split at hpiece
      · rename_i choices options hchoices
        cases hpiece
        refine objectPiece_wellFormed optionKeys_ascii ?_
        simp only [optionFields, List.mem_cons, List.not_mem_nil, or_false, forall_eq_or_imp,
          forall_eq, Option.mem_some_iff, forall_eq']
        refine ⟨numberPiece_wellFormed (number_decimalText _),
          stringPiece_wellFormed (h.name _ hname),
          stringPiece_wellFormed (h.description _ hdescription),
          wellFormed_of_map fun text htext => .raw (h.nameLocalizations text htext),
          wellFormed_of_map fun text htext => .raw (h.descriptionLocalizations text htext),
          wellFormed_of_map fun flag _ => flagPiece_wellFormed flag,
          choicesField_wellFormed hchoices h, hnested options rfl,
          channelTypesField_wellFormed option,
          wellFormed_of_map fun flag _ => flagPiece_wellFormed flag,
          wellFormed_of_map fun n _ => numberPiece_wellFormed (number_i64Text n),
          wellFormed_of_map fun n _ => numberPiece_wellFormed (number_i64Text n),
          wellFormed_of_map fun x hx =>
            numberPiece_wellFormed (number_of_isFinite (h.minNumber x hx)),
          wellFormed_of_map fun x hx =>
            numberPiece_wellFormed (number_of_isFinite (h.maxNumber x hx))⟩
      · cases hpiece
  · cases hpiece

theorem optionPieces_wellFormed {options : List OptionBuilder}
    (hpieces : optionPieces options = .ok pieces)
    (h : ∀ option ∈ options, ∀ piece, optionPiece option = .ok piece → piece.WellFormed) :
    ∀ piece ∈ pieces, piece.WellFormed :=
  forall_of_forall₂ (optionPieces_loops.each hpieces h)

theorem optionPiece_wellFormed {option : OptionBuilder} (h : option.Json) :
    ∀ piece, optionPiece option = .ok piece → piece.WellFormed := by
  induction h with
  | @mk option hmembers _ ih =>
    obtain ⟨members, options⟩ := option
    intro piece hpiece
    cases options with
    | none =>
      rw [optionPiece] at hpiece
      refine optionObject_wellFormed hpiece hmembers fun nested hnested => ?_
      exact optionsMember_wellFormed hnested hmembers.optionsJson (by simp)
    | some options =>
      rw [optionPiece] at hpiece
      refine optionObject_wellFormed hpiece hmembers fun nested hnested => ?_
      refine optionsMember_wellFormed hnested hmembers.optionsJson fun items hitems => ?_
      exact optionPieces_wellFormed hitems (ih options rfl)

theorem permissionsPiece_wellFormed (permissions : Permissions) :
    (permissionsPiece permissions).WellFormed := by
  unfold permissionsPiece
  split
  · exact .value .null
  · exact stringPiece_wellFormed (plainText_natText _)

/-- The members that the registry compares, in the order in which they are written. -/
def comparedKeys : List Bytes :=
  [asciiText "name", asciiText "name_localizations", asciiText "description",
    asciiText "description_localizations", asciiText "type", asciiText "options",
    asciiText "default_member_permissions", asciiText "dm_permission", asciiText "nsfw",
    asciiText "integration_types", asciiText "contexts"]

theorem commandFields_keys (command : Builder Members) (options : Option Piece) :
    (commandFields command options).map Prod.fst = comparedKeys := rfl

theorem comparedKeys_ascii : comparedKeys.all asciiKey = true := by decide

variable {command : Builder Members}

theorem commandOptions_wellFormed
    (hoptions : commandOptions command.members = .ok options) (h : command.Json) :
    ∀ piece ∈ options, piece.WellFormed := by
  unfold commandOptions at hoptions
  split at hoptions
  · rename_i structured hstructured
    refine optionsMember_wellFormed hoptions h.optionsJson fun items hitems => ?_
    exact optionPieces_wellFormed hitems fun option hoption =>
      optionPiece_wellFormed (h.options structured hstructured option hoption)
  · exact optionsMember_wellFormed hoptions h.optionsJson (by simp)

/-- **What is written of a command whose members are JSON is JSON.** -/
theorem commandPiece_wellFormed
    (hpiece : commandPiece command = .ok piece) (h : command.Json) : piece.WellFormed := by
  unfold commandPiece at hpiece
  split at hpiece
  · rename_i options hoptions
    cases hpiece
    refine objectPiece_wellFormed (commandFields_keys command options ▸ comparedKeys_ascii) ?_
    simp only [commandFields, List.mem_cons, List.not_mem_nil, or_false, forall_eq_or_imp,
      forall_eq]
    refine ⟨wellFormed_of_map fun text htext => stringPiece_wellFormed (h.name text htext),
      wellFormed_of_map fun text htext => .raw (h.nameLocalizations text htext),
      wellFormed_of_map fun text htext => stringPiece_wellFormed (h.description text htext),
      wellFormed_of_map fun text htext => .raw (h.descriptionLocalizations text htext),
      wellFormed_of_map fun type _ => numberPiece_wellFormed (number_decimalText _),
      commandOptions_wellFormed hoptions h,
      wellFormed_of_map fun permissions _ => permissionsPiece_wellFormed permissions,
      wellFormed_of_map fun flag _ => flagPiece_wellFormed flag,
      wellFormed_of_map fun flag _ => flagPiece_wellFormed flag,
      wellFormed_of_map fun text htext => .raw (h.integrationTypes text htext),
      wellFormed_of_map fun text htext => .raw (h.contexts text htext)⟩
  · cases hpiece

end Dcc.Commands
