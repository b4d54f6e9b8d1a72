import Dcc.Commands.Payload
import Dcc.Components.Validate
import Dcc.Rest.Buffer

/-!
# Writing components as JSON

`dcc_component_v2_append_array_json` writes an array of builders into a buffer that grows, piece by
piece, each object member by member.  Nothing is checked again but the sizes, so a text that is
missing is read behind a null pointer.

* `appendJson`, `appendArrayJson` — the pieces of a component and of an array;
* `appendSteps` — the pieces in a buffer, up to the first failure.
-/

namespace Dcc.Components

open Dcc.Json Dcc.Commands Decimal

/-! ## The buffer -/

/-- What is appended one after the other; a status ends it. -/
abbrev Steps := List (Except Status Bytes)

/-- `dcc_component_json_append` to a buffer with a text; `grows` says for which sizes
`dcc_component_json_buffer_reserve` finds the memory. -/
def append (grows : Nat → Bool) (text data : Bytes) : Except Status Bytes :=
  if wordMax - 1 < text.length ∨ wordMax - text.length - 1 < data.length then .error .nomem
  else if grows (text.length + (data.length + 1)) then .ok (text ++ data)
  else .error .nomem

/-- The pieces of a document, up to the first status that is not `DCC_OK`. -/
def appendSteps (grows : Nat → Bool) : Bytes → Steps → Except Status Bytes
  | text, [] => .ok text
  | _, .error status :: _ => .error status
  | text, .ok data :: steps => do
      let text ← append grows text data
      appendSteps grows text steps

/-- `dcc_component_json_append_escaped_string`. -/
def escapedString : Option Bytes → Steps
  -- the text is read behind a null pointer
  | none => [.error .invalidArg]
  | some value => .ok [chQuote] :: (value.map fun ch => .ok (escapeByte ch)) ++ [.ok [chQuote]]

/-- A text that is written where there is one. -/
def optionalString (value : Option Bytes) : Option Steps :=
  value.map fun text => escapedString (some text)

/-- The value of `dcc_component_json_append_bool_member`. -/
def boolSteps (value : UInt8) : Steps := [.ok (if value ≠ 0 then litTrue else litFalse)]

/-- `dcc_component_json_append_u32`. -/
def u32Steps (value : UInt32) : Steps := [.ok (decimalText value.toNat)]

/-- `dcc_component_json_append_snowflake_string`. -/
def snowflakeSteps (value : UInt64) : Steps :=
  [.ok (chQuote :: (decimalText value.toNat ++ [chQuote]))]

/-- `dcc_component_json_member_prefix`. -/
def memberPrefix (first : Bool) (name : Bytes) : Steps :=
  [.ok (if first then [chQuote] else [chComma, chQuote]), .ok name, .ok [chQuote, chColon]]

/-- Members one after the other. -/
def members : Bool → List (Bytes × Steps) → Steps
  | _, [] => []
  | first, (name, value) :: rest => memberPrefix first name ++ value ++ members false rest

/-- An object with the members that are there. -/
def object (fields : List (Bytes × Option Steps)) : Steps :=
  .ok [chLBrace] :: (members true (present fields) ++ [.ok [chRBrace]])

/-- Items with a comma before each but the first. -/
def elements : Bool → List Steps → Steps
  | _, [] => []
  | first, item :: rest => (if first then [] else [.ok [chComma]]) ++ item ++ elements false rest

/-- The loops that write an array. -/
def array {α : Type} (write : α → Steps) : Span α → Steps
  | .null count =>
    -- an item is read behind a null pointer
    .ok [chLBracket] :: (if count = 0 then [.ok [chRBracket]] else [.error .invalidArg])
  | .items _ list => .ok [chLBracket] :: (elements true (list.map write) ++ [.ok [chRBracket]])

/-- An array that is written where it has items. -/
def nonemptyArray {α : Type} (write : α → Steps) (values : Span α) : Option Steps :=
  if values.count ≠ 0 then some (array write values) else none

/-! ## Fields -/

/-- `dcc_component_append_emoji_json`. -/
def appendEmoji (emoji : Emoji) : Steps :=
  if !emoji.hasId && emoji.name.isNone then [.error .invalidArg]
  else
    object
      [(asciiText "id", if emoji.hasId then some (snowflakeSteps emoji.id) else none),
        (asciiText "name", optionalString emoji.name),
        (asciiText "animated", if emoji.hasAnimated then some (boolSteps emoji.animated) else none)]

/-- `dcc_component_v2_append_media_object`. -/
def appendMediaObject (medium : Media) : Steps :=
  object [(asciiText "url", some (escapedString medium.url))]

/-- `dcc_component_v2_append_media_item`. -/
def appendMediaItem (medium : Media) : Steps :=
  object
    [(asciiText "media", some (appendMediaObject medium)),
      (asciiText "description", optionalString medium.description),
      (asciiText "spoiler", if medium.hasSpoiler then some (boolSteps medium.spoiler) else none)]

/-- An option of `dcc_component_v2_append_options`. -/
def appendOption (option : SelectOption) : Steps :=
  object
    [(asciiText "label", some (escapedString option.label)),
      (asciiText "value", some (escapedString option.value)),
      (asciiText "description", optionalString option.description),
      (asciiText "emoji", if option.hasEmoji then some (appendEmoji option.emoji) else none),
      (asciiText "default", if option.hasDefault then some (boolSteps option.isDefault) else none)]

/-- An option of `dcc_component_v2_append_choice_options`. -/
def appendChoiceOption (option : ChoiceOption) : Steps :=
  object
    [(asciiText "label", some (escapedString option.label)),
      (asciiText "value", some (escapedString option.value)),
      (asciiText "description", optionalString option.description),
      (asciiText "default",
        if option.hasDefault ≠ 0 then some (boolSteps option.isDefault) else none)]

/-- `dcc_component_v2_default_type_name`. -/
def defaultTypeName : DefaultType → Option Bytes
  | .user => some (asciiText "user")
  | .role => some (asciiText "role")
  | .channel => some (asciiText "channel")
  | .unknown _ => none

/-- A value of `dcc_component_v2_append_default_values`. -/
def appendDefaultValue (value : DefaultValue) : Steps :=
  match defaultTypeName value.type with
  | none => [.error .invalidArg]
  | some name =>
    object
      [(asciiText "id", some (snowflakeSteps value.id)),
        (asciiText "type", some (escapedString (some name)))]

/-- `dcc_component_v2_append_button_fields`. -/
def buttonFields (view : View) : List (Bytes × Option Steps) :=
  [(asciiText "style", if view.hasButtonStyle then some (u32Steps view.buttonStyle) else none),
    (asciiText "label", optionalString view.label),
    (asciiText "emoji", if view.hasEmoji then some (appendEmoji view.emoji) else none),
    (asciiText "custom_id", optionalString view.customId),
    (asciiText "url", optionalString view.url),
    (asciiText "sku_id", if view.hasSkuId then some (snowflakeSteps view.skuId) else none),
    (asciiText "disabled", if view.hasDisabled then some (boolSteps view.disabled) else none)]

/-- `dcc_component_v2_append_select_fields`, with `dcc_component_v2_append_options`,
`dcc_component_v2_append_default_values` and `dcc_component_v2_append_channel_types`. -/
def selectFieldSteps (view : View) : List (Bytes × Option Steps) :=
  [(asciiText "custom_id", optionalString view.customId),
    (asciiText "options", nonemptyArray appendOption view.options),
    (asciiText "default_values", nonemptyArray appendDefaultValue view.defaultValues),
    (asciiText "channel_types", nonemptyArray u32Steps view.channelTypes),
    (asciiText "placeholder", optionalString view.placeholder),
    (asciiText "min_values", if view.hasMinValues then some (u32Steps view.minValues) else none),
    (asciiText "max_values", if view.hasMaxValues then some (u32Steps view.maxValues) else none),
    (asciiText "disabled", if view.hasDisabled then some (boolSteps view.disabled) else none),
    (asciiText "required", if view.hasRequired then some (boolSteps view.required) else none)]

/-- `dcc_component_v2_append_text_input_fields`. -/
def textInputFields (view : View) : List (Bytes × Option Steps) :=
  [(asciiText "custom_id", optionalString view.customId), (asciiText "style",
      if view.hasTextInputStyle then some (u32Steps view.textInputStyle) else none),
    (asciiText "placeholder", optionalString view.placeholder),
    (asciiText "min_length", if view.hasMinLength then some (u32Steps view.minLength) else none),
    (asciiText "max_length", if view.hasMaxLength then some (u32Steps view.maxLength) else none),
    (asciiText "value", optionalString view.value),
    (asciiText "required", if view.hasRequired then some (boolSteps view.required) else none)]

/-- `dcc_component_v2_append_media_fields`. -/
def mediaFields (view : View) : List (Bytes × Option Steps) :=
  let member := if view.type = .file then asciiText "file" else asciiText "media"
  match view.media.list with
  | [] => [(member, some [.error .invalidArg])]
  | medium :: _ =>
    [(member, some (appendMediaObject medium)),
      (asciiText "description", optionalString medium.description),
      (asciiText "spoiler", if medium.hasSpoiler then some (boolSteps medium.spoiler) else none),
      (asciiText "spoiler", if view.hasSpoiler then some (boolSteps view.spoiler) else none)]

/-- The fields that `dcc_component_v2_append_fields` writes of a type that holds no components. -/
def leafFields (view : View) : List (Bytes × Option Steps) :=
  match view.type with
  | .button => buttonFields view
  | .stringSelect | .userSelect | .roleSelect | .mentionableSelect | .channelSelect =>
    selectFieldSteps view
  | .textInput => textInputFields view
  | .textDisplay => [(asciiText "content", some (escapedString view.content))]
  | .thumbnail | .file => mediaFields view
  | .mediaGallery => [(asciiText "items", some (array appendMediaItem view.media))]
  | .separator =>
    [(asciiText "divider", if view.hasDivider then some (boolSteps view.divider) else none),
      (asciiText "spacing", if view.hasSpacing then some (u32Steps view.spacing) else none)]
  | .fileUpload =>
    [(asciiText "custom_id", some (escapedString view.customId)), (asciiText "min_values",
        if view.hasMinValues then some (u32Steps view.minValues) else none),
      (asciiText "max_values", if view.hasMaxValues then some (u32Steps view.maxValues) else none),
      (asciiText "required", if view.hasRequired then some (boolSteps view.required) else none),
      (asciiText "file_types", nonemptyArray escapedString view.fileTypes)]
  | .radioGroup =>
    [(asciiText "custom_id", some (escapedString view.customId)),
      (asciiText "options", some (array appendChoiceOption view.choiceOptions)),
      (asciiText "required", if view.hasRequired then some (boolSteps view.required) else none)]
  | .checkboxGroup =>
    [(asciiText "custom_id", some (escapedString view.customId)),
      (asciiText "options", some (array appendChoiceOption view.choiceOptions)),
      (asciiText "required", if view.hasRequired then some (boolSteps view.required) else none),
      (asciiText "min_values", if view.hasMinValues then some (u32Steps view.minValues) else none),
      (asciiText "max_values", if view.hasMaxValues then some (u32Steps view.maxValues) else none)]
  | .checkbox =>
    [(asciiText "custom_id", some (escapedString view.customId)),
      (asciiText "default", if view.hasChecked then some (boolSteps view.checked) else none)]
  | _ => []

/-! ## Components -/

/-- The members of every component. -/
def plainFields (view : View) : List (Bytes × Option Steps) :=
  [(asciiText "type", some (u32Steps view.type.number)),
    (asciiText "id", if view.hasId then some (u32Steps view.id) else none)]

/-- The checks of `dcc_component_v2_append_array_json` before its loop. -/
def arraySizesValid (abi : Abi) (address stride count : Nat) : Bool :=
  count = 0 || (address % abi.builderAlign = 0 && abi.prefixSize ≤ stride &&
    stride % abi.builderAlign = 0 && count ≤ wordMax / stride)

mutual

/-- `dcc_component_v2_append_json`, with `dcc_component_v2_append_fields` and
`dcc_component_v2_append_children_member`. -/
def appendJson (abi : Abi) : Builder → Steps
  | .mk head children accessory =>
    let view := head.view
    let components :=
      if children.count ≠ 0 then some (appendArrayJson abi children) else none
    match head.type with
    | .actionRow => object (plainFields view ++ [(asciiText "components", components)])
    | .container =>
      object (plainFields view ++ [(asciiText "components", components), (asciiText "accent_color",
            if view.hasAccentColor then some (u32Steps view.accentColor) else none),
          (asciiText "spoiler", if view.hasSpoiler then some (boolSteps view.spoiler) else none)])
    | .sectionType =>
      object (plainFields view ++ [(asciiText "components", components),
          (asciiText "accessory", some (appendAccessory abi accessory))])
    | .label =>
      object (plainFields view ++ [(asciiText "label", some (escapedString view.label)),
          (asciiText "description", optionalString view.description),
          (asciiText "component", some (appendComponent abi children))])
    | .unknown _ =>
      .ok [chLBrace] :: (members true (present (plainFields view)) ++ [.error .invalidArg])
    | _ => object (plainFields view ++ leafFields view)

/-- `dcc_component_v2_append_array_json`. -/
def appendArrayJson (abi : Abi) : Span Builder → Steps
  | .null count =>
    if count = 0 then [.ok [chLBracket], .ok [chRBracket]] else [.error .invalidArg]
  | .items address list =>
    let stride := (list.head?.map fun first => first.head.size).getD 0
    if arraySizesValid abi address stride list.length then
      .ok [chLBracket] :: (appendList abi stride true list ++ [.ok [chRBracket]])
    else [.error .invalidArg]

/-- The loop of `dcc_component_v2_append_array_json`. -/
def appendList (abi : Abi) (stride : Nat) : Bool → List Builder → Steps
  | _, [] => []
  | first, b :: rest =>
    (if first then [] else [.ok [chComma]]) ++
      (if b.head.size = stride then appendJson abi b else [.error .invalidArg]) ++
        appendList abi stride false rest

/-- The accessory of a section. -/
def appendAccessory (abi : Abi) : Option Builder → Steps
  -- the accessory is read behind a null pointer
  | none => [.error .invalidArg]
  | some b => appendJson abi b

/-- The component of a label. -/
def appendComponent (abi : Abi) : Span Builder → Steps
  | .null _ => [.error .invalidArg]
  | .items _ list => appendFirst abi list

def appendFirst (abi : Abi) : List Builder → Steps
  | [] => [.error .invalidArg]
  | b :: _ => appendJson abi b

end

end Dcc.Components
