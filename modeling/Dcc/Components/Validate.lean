import Dcc.Components.Builder

/-!
# The validation of components

`dcc_component_v2_validate_array_context` accepts an array of builders for a place where it may
stand.  A first pass goes through every component with the ids it has met; where the place is known,
two more passes look at what may stand under what, and at the fields that the place forbids.

* `validateOne` — one component and those below it, with the ids that were met before;
* `validateMessageLayout` — what may stand under what in a message;
* `validateArrayContext` — all passes.
-/

namespace Dcc.Components

/-- The layout of the structures in memory. -/
structure Abi where
  /-- The end of `id` in a builder. -/
  prefixSize : Nat
  /-- `_Alignof(dcc_component_v2_builder_t)`. -/
  builderAlign : Nat
  /-- `dcc_component_v2_field_end_internal`. -/
  fieldEnd : ComponentType → Field → Nat
  selectOptionSize : Nat
  choiceOptionSize : Nat
  defaultValueSize : Nat
  channelTypeSize : Nat
  mediaSize : Nat

/-- The layout where pointers and sizes have eight bytes. -/
def Abi.lp64 : Abi where
  prefixSize := 32
  builderAlign := 8
  fieldEnd
    | _, .id => 32
    | .button, .style => 36
    | .button, .label => 48
    | .button, .emoji => 72
    | .button, .disabled => 73
    | .button, _ => 88
    | .textInput, .customId => 40
    | .textInput, .style => 44
    | .textInput, .placeholder => 56
    | .textInput, .minLength => 60
    | .textInput, .maxLength => 64
    | .textInput, .value => 72
    | .textInput, _ => 73
    | .actionRow, _ | .sectionType, _ | .container, _ | .label, _ => 56
    | .thumbnail, _ | .mediaGallery, _ | .file, _ => 56
    | .separator, _ | .textDisplay, _ => 40
    | .fileUpload, _ | .radioGroup, _ | .checkboxGroup, _ | .checkbox, _ => 72
    | .unknown _, _ => wordMax
    -- the selects
    | _, .customId => 40
    | _, .placeholder => 48
    | _, .minValues => 52
    | _, .maxValues => 56
    | _, .required => 57
    | _, .disabled => 58
    | _, _ => 96
  selectOptionSize := 56
  choiceOptionSize := 32
  defaultValueSize := 16
  channelTypeSize := 4
  mediaSize := 24

/-- `DCC_COMPONENT_V2_MAX_COMPONENTS`. -/
def maxComponents : Nat := 40

/-- A check: every failure is `DCC_ERR_INVALID_ARG`. -/
def require (condition : Bool) : Except Status Unit :=
  if condition then .ok () else .error .invalidArg

/-- `dcc_component_v2_array_span_valid`. -/
def arraySpanValid {α : Type} (itemSize : Nat) (values : Span α) : Bool :=
  if values.count = 0 then true
  else
    match values with
    | .null _ => false
    | .items address list =>
      itemSize ≠ 0 && list.length ≤ wordMax / itemSize &&
        address ≤ wordMax - (list.length * itemSize - 1)

/-- `dcc_component_v2_sequence_stride`: the size of the first builder. -/
def sequenceStride (abi : Abi) : Span Builder → Except Status Nat
  | .null 0 => .ok 0
  | .null _ => .error .invalidArg
  | .items _ [] => .ok 0
  | .items address (first :: rest) =>
    let count := rest.length + 1
    let stride := first.head.size
    if address % abi.builderAlign ≠ 0 then .error .invalidArg
    else if stride < abi.prefixSize ∨ stride % abi.builderAlign ≠ 0 ∨ wordMax / stride < count ∨
        wordMax - count * stride < address then
      .error .invalidArg
    else .ok stride

/-- `dcc_component_v2_string_length_between`. -/
def stringLengthBetween (value : Option Bytes) (minLength maxLength : Nat) : Bool :=
  match value with
  | none => minLength = 0
  | some text => minLength ≤ text.length && text.length ≤ maxLength

/-- `dcc_component_v2_button_style_valid`. -/
def buttonStyleValid (style : UInt32) : Bool := 1 ≤ style && style ≤ 6

/-- `dcc_component_v2_text_input_style_valid`. -/
def textInputStyleValid (style : UInt32) : Bool := style = 1 || style = 2

/-- `dcc_component_v2_spacing_valid`. -/
def spacingValid (spacing : UInt32) : Bool := spacing = 1 || spacing = 2

/-! ## The ids -/

/-- `dcc_component_v2_validation_t`. -/
structure Validation where
  customIds : List Bytes
  ids : List UInt32
  totalCount : Nat

/-- `dcc_component_v2_validate_custom_id`. -/
def validateCustomId (ctx : Validation) : Option Bytes → Except Status Validation
  | none => .error .invalidArg
  | some customId =>
    if customId.length = 0 ∨ 100 < customId.length ∨ maxComponents ≤ ctx.customIds.length then
      .error .invalidArg
    else if ctx.customIds.contains customId then .error .invalidArg
    else .ok { ctx with customIds := ctx.customIds ++ [customId] }

/-- `dcc_component_v2_validate_id`. -/
def validateId (ctx : Validation) (id : UInt32) : Except Status Validation :=
  if id = 0 then .ok ctx
  else if maxComponents ≤ ctx.ids.length then .error .invalidArg
  else if ctx.ids.contains id then .error .invalidArg
  else .ok { ctx with ids := ctx.ids ++ [id] }

/-! ## The fields -/

/-- `dcc_component_v2_select_default_type_allowed`. -/
def selectDefaultTypeAllowed (selectType : ComponentType) (defaultType : DefaultType) : Bool :=
  match selectType with
  | .userSelect => defaultType = .user
  | .roleSelect => defaultType = .role
  | .mentionableSelect => defaultType = .user || defaultType = .role
  | .channelSelect => defaultType = .channel
  | _ => false

/-- `dcc_component_v2_validate_select_defaults`. -/
def selectDefaultsValid (abi : Abi) (selectType : ComponentType) (values : Span DefaultValue) :
    Bool :=
  values.count = 0 ||
    (arraySpanValid abi.defaultValueSize values && values.count ≤ 25 &&
      selectType ≠ .stringSelect &&
        values.list.all fun value =>
          value.id ≠ 0 && selectDefaultTypeAllowed selectType value.type)

/-- `dcc_component_v2_validate_channel_types`. -/
def channelTypesValid (abi : Abi) (selectType : ComponentType) (types : Span UInt32) : Bool :=
  types.count = 0 || (selectType = .channelSelect && arraySpanValid abi.channelTypeSize types)

/-- `dcc_component_v2_validate_emoji`. -/
def emojiValid (emoji : Emoji) : Bool := emoji.hasId || emoji.name.isSome

/-- `dcc_component_v2_validate_options`. -/
def optionsValid (abi : Abi) (options : Span SelectOption) (minCount maxCount : Nat) : Bool :=
  minCount ≤ options.count && options.count ≤ maxCount &&
    arraySpanValid abi.selectOptionSize options &&
      options.list.all fun option =>
        stringLengthBetween option.label 1 100 && stringLengthBetween option.value 1 100 &&
          stringLengthBetween option.description 0 100 &&
            (!option.hasEmoji || emojiValid option.emoji)

/-- `dcc_component_v2_validate_choices`. -/
def choicesValid (abi : Abi) (options : Span ChoiceOption) (minCount maxCount : Nat)
    (radio : Bool) : Bool :=
  minCount ≤ options.count && options.count ≤ maxCount &&
    arraySpanValid abi.choiceOptionSize options &&
      (options.list.all fun option =>
        stringLengthBetween option.label 1 100 && stringLengthBetween option.value 1 100 &&
          stringLengthBetween option.description 0 100 && option.hasDefault ≤ 1 &&
            option.isDefault ≤ 1) &&
        !(radio && 1 < options.list.countP fun option =>
          option.hasDefault ≠ 0 && option.isDefault ≠ 0)

/-- `dcc_component_v2_validate_media`. -/
def mediaValid (abi : Abi) (media : Span Media) (minCount maxCount : Nat) : Bool :=
  minCount ≤ media.count && media.count ≤ maxCount && arraySpanValid abi.mediaSize media &&
    media.list.all fun medium =>
      stringLengthBetween medium.url 1 2048 && stringLengthBetween medium.description 0 1024

/-- The checks of `min_values` and `max_values` in `dcc_component_v2_validate_select`. -/
def selectRangeValid (view : View) : Bool :=
  !(view.hasMinValues && 25 < view.minValues) && !(view.hasMaxValues && 25 < view.maxValues) &&
    !(view.hasMinValues && view.hasMaxValues && view.maxValues < view.minValues)

/-- The checks of `min_values` and `max_values` in an upload and in a group of checkboxes. -/
def modalRangeValid (view : View) : Bool :=
  !(view.hasMinValues && 10 < view.minValues) &&
    !(view.hasMaxValues && (view.maxValues = 0 || 10 < view.maxValues)) &&
      !(view.hasMinValues && view.hasMaxValues && view.maxValues < view.minValues)

/-- `dcc_component_v2_validate_button`. -/
def validateButton (view : View) (ctx : Validation) : Except Status Validation := do
  require (view.hasButtonStyle && buttonStyleValid view.buttonStyle)
  require (stringLengthBetween view.label 0 80 && stringLengthBetween view.url 0 512)
  require (!view.hasEmoji || emojiValid view.emoji)
  if view.buttonStyle = 5 then
    require (view.url.any (· ≠ []) && view.customId.isNone && !view.hasSkuId &&
      (view.label.isSome || view.hasEmoji))
    return ctx
  else if view.buttonStyle = 6 then
    require (view.hasSkuId && view.skuId ≠ 0 && view.customId.isNone && view.url.isNone &&
      view.label.isNone && !view.hasEmoji)
    return ctx
  else
    require (!(view.url.isSome || view.hasSkuId))
    require (!(view.label.isNone && !view.hasEmoji))
    validateCustomId ctx view.customId

/-- `dcc_component_v2_validate_select`. -/
def validateSelect (abi : Abi) (view : View) (ctx : Validation) : Except Status Validation := do
  let ctx ← validateCustomId ctx view.customId
  require (if view.type = .stringSelect then optionsValid abi view.options 1 25
    else view.options.count = 0)
  require (stringLengthBetween view.placeholder 0 150)
  require (selectDefaultsValid abi view.type view.defaultValues)
  require (channelTypesValid abi view.type view.channelTypes)
  require (selectRangeValid view)
  return ctx

/-- A text input, in `dcc_component_v2_validate_one`. -/
def validateTextInput (view : View) (ctx : Validation) : Except Status Validation := do
  require (view.hasTextInputStyle && textInputStyleValid view.textInputStyle)
  require (stringLengthBetween view.placeholder 0 100 && stringLengthBetween view.value 0 4000 &&
    !(view.hasMinLength && 4000 < view.minLength) &&
      !(view.hasMaxLength && (view.maxLength = 0 || 4000 < view.maxLength)))
  require (!(view.hasMinLength && view.hasMaxLength && view.maxLength < view.minLength))
  validateCustomId ctx view.customId

/-- The prefix of the url of a file. -/
def attachmentText : Bytes := asciiText "attachment://"

/-- A file, in `dcc_component_v2_validate_one`. -/
def fileValid (abi : Abi) (media : Span Media) : Bool :=
  mediaValid abi media 1 1 &&
    media.list.head?.any fun medium =>
      medium.url.any fun url => url.take 13 = attachmentText && 13 < url.length

/-- A file type of an upload. -/
def fileTypeValid : Option Bytes → Bool
  | none => false
  | some type =>
    type = asciiText "image" || type = asciiText "video" || type = asciiText "audio" ||
      (type.head? = some 0x2e && 1 < type.length)

/-- An upload, in `dcc_component_v2_validate_one`. -/
def validateFileUpload (view : View) (ctx : Validation) : Except Status Validation := do
  require (modalRangeValid view)
  require (view.fileTypes.count ≤ 10 && !(view.fileTypes.count ≠ 0 && view.fileTypes.isNull))
  require (view.fileTypes.list.all fileTypeValid)
  validateCustomId ctx view.customId

/-- A radio group, in `dcc_component_v2_validate_one`. -/
def validateRadioGroup (abi : Abi) (view : View) (ctx : Validation) :
    Except Status Validation := do
  let ctx ← validateCustomId ctx view.customId
  require (choicesValid abi view.choiceOptions 2 10 true)
  return ctx

/-- A group of checkboxes, in `dcc_component_v2_validate_one`. -/
def validateCheckboxGroup (abi : Abi) (view : View) (ctx : Validation) :
    Except Status Validation := do
  let ctx ← validateCustomId ctx view.customId
  require (modalRangeValid view && !((!view.hasRequired || view.required ≠ 0) &&
    view.hasMinValues && view.minValues = 0))
  require (choicesValid abi view.choiceOptions 1 10 false)
  return ctx

/-! ## The children -/

/-- The loop of `dcc_component_v2_validate_action_row`. -/
def scanRow (count : Nat) : Bool → List ComponentType → Except Status Unit
  | _, [] => .ok ()
  | hasSelect, type :: types =>
    if type = .button then
      if hasSelect then .error .invalidArg else scanRow count hasSelect types
    else if type.isSelect then
      if count ≠ 1 then .error .invalidArg else scanRow count true types
    else .error .invalidArg

/-- `dcc_component_v2_validate_action_row`, up to its children. -/
def checkActionRow (abi : Abi) (children : Span Builder) : Except Status Unit := do
  require (children.count ≠ 0 && children.count ≤ 5 && !children.isNull)
  let _ ← sequenceStride abi children
  scanRow children.count false (children.list.map Builder.type)

/-- `dcc_component_v2_validate_section`, up to its children. -/
def checkSection (abi : Abi) (children : Span Builder) (accessory : Option Builder) :
    Except Status Unit := do
  require (children.count ≠ 0 && children.count ≤ 3 && !children.isNull && accessory.isSome)
  let _ ← sequenceStride abi children
  require (children.list.all fun child => child.type = .textDisplay)
  require (accessory.any fun b => b.type = .button || b.type = .thumbnail)

/-- The types that a label may wrap. -/
def ComponentType.isInput (type : ComponentType) : Bool :=
  type = .textInput || type.isSelect || type = .fileUpload || type = .radioGroup ||
    type = .checkboxGroup || type = .checkbox

/-- `dcc_component_v2_validate_label`, up to its child. -/
def checkLabel (view : View) (children : Span Builder) : Except Status Unit := do
  require (stringLengthBetween view.label 1 45 && stringLengthBetween view.description 0 100 &&
    children.count = 1 && !children.isNull)
  require (children.list.head?.any fun child => child.type.isInput)

/-! ## Masks -/

/-- The fields of every select. -/
def selectFields : List Field :=
  [.id, .customId, .placeholder, .minValues, .maxValues, .required, .disabled]

/-- `validation_allowed`. -/
def validationAllowed : ComponentType → UInt64
  | .actionRow => masks [.id, .components]
  | .button => masks [.id, .style, .label, .emoji, .customId, .url, .skuId, .disabled]
  | .stringSelect => masks (selectFields ++ [.options])
  | .userSelect | .roleSelect | .mentionableSelect => masks (selectFields ++ [.defaultValues])
  | .channelSelect => masks (selectFields ++ [.defaultValues, .channelTypes])
  | .textInput =>
    masks [.id, .customId, .style, .placeholder, .minLength, .maxLength, .value, .required]
  | .sectionType => masks [.id, .components, .accessory]
  | .textDisplay => masks [.id, .content]
  | .thumbnail => masks [.id, .media, .description, .spoiler]
  | .mediaGallery => masks [.id, .items]
  | .file => masks [.id, .media, .spoiler]
  | .separator => masks [.id, .divider, .spacing]
  | .container => masks [.id, .components, .accentColor, .spoiler]
  | .label => masks [.id, .label, .description, .component]
  | .fileUpload => masks [.id, .customId, .minValues, .maxValues, .required, .fileTypes]
  | .radioGroup => masks [.id, .customId, .options, .required]
  | .checkboxGroup => masks [.id, .customId, .options, .minValues, .maxValues, .required]
  | .checkbox => masks [.id, .customId, .defaultValue]
  | .unknown _ => 0

/-- `validation_required`. -/
def validationRequired : ComponentType → UInt64
  | .actionRow => masks [.components]
  | .button => masks [.style]
  | .stringSelect => masks [.customId, .options]
  | .userSelect | .roleSelect | .mentionableSelect | .channelSelect | .fileUpload | .checkbox =>
    masks [.customId]
  | .textInput => masks [.customId, .style]
  | .sectionType => masks [.components, .accessory]
  | .textDisplay => masks [.content]
  | .thumbnail | .file => masks [.media]
  | .mediaGallery => masks [.items]
  | .container => masks [.components]
  | .label => masks [.label, .component]
  | .radioGroup | .checkboxGroup => masks [.customId, .options]
  | .separator => 0
  | .unknown _ => UInt64.ofNat wordMax

/-- The checks of a builder before its view: size, version, type, and mask. -/
def Head.wellFormed (abi : Abi) (head : Head) : Bool :=
  abi.prefixSize ≤ head.size && head.version = 1 && head.type.valid &&
    head.present &&& ~~~(UInt64.ofNat (2 ^ Field.all.length - 1)) = 0 &&
    head.present &&& ~~~(validationAllowed head.type) = 0 &&
    head.present &&& validationRequired head.type = validationRequired head.type &&
      Field.all.all fun field => !head.has field || abi.fieldEnd head.type field ≤ head.size

/-- The checks of the values that every type may have. -/
def View.flagsValid (view : View) : Bool :=
  (!view.hasSpacing || spacingValid view.spacing) && !(view.hasDisabled && 1 < view.disabled) &&
    !(view.hasRequired && 1 < view.required) && !(view.hasDivider && 1 < view.divider) &&
      !(view.hasSpoiler && 1 < view.spoiler) && !(view.hasChecked && 1 < view.checked)

/-! ## The first pass -/

/-- The count and the id of a component, in `dcc_component_v2_validate_one`. -/
def validateSelf (head : Head) (ctx : Validation) : Except Status Validation :=
  let ctx := { ctx with totalCount := ctx.totalCount + 1 }
  if head.view.hasId then validateId ctx head.view.id else .ok ctx

mutual

/-- `dcc_component_v2_validate_one`. -/
def validateOne (abi : Abi) : Builder → Validation → Except Status Validation
  | .mk head children accessory, ctx => do
      require (head.wellFormed abi)
      require (ctx.totalCount < maxComponents)
      let ctx ← validateSelf head ctx
      let view := head.view
      require view.flagsValid
      match head.type with
      | .actionRow => do
          checkActionRow abi children
          validateChildren abi children ctx
      | .button => validateButton view ctx
      | .stringSelect | .userSelect | .roleSelect | .mentionableSelect | .channelSelect =>
        validateSelect abi view ctx
      | .textInput => validateTextInput view ctx
      | .sectionType => do
          checkSection abi children accessory
          let ctx ← validateChildren abi children ctx
          validateAccessory abi accessory ctx
      | .textDisplay => do
          require (stringLengthBetween view.content 1 4000)
          return ctx
      | .thumbnail => do
          require (mediaValid abi view.media 1 1)
          return ctx
      | .file => do
          require (fileValid abi view.media)
          return ctx
      | .mediaGallery => do
          require (mediaValid abi view.media 1 10)
          return ctx
      | .separator => .ok ctx
      | .container => validateChildren abi children ctx
      | .label => do
          checkLabel view children
          validateChildren abi children ctx
      | .fileUpload => validateFileUpload view ctx
      | .radioGroup => validateRadioGroup abi view ctx
      | .checkboxGroup => validateCheckboxGroup abi view ctx
      | .checkbox => validateCustomId ctx view.customId
      | .unknown _ => .error .invalidArg

/-- `dcc_component_v2_validate_children`. -/
def validateChildren (abi : Abi) : Span Builder → Validation → Except Status Validation
  | .null count, ctx => do
      let _ ← sequenceStride abi (.null count)
      return ctx
  | .items address list, ctx => do
      require (list.length ≤ maxComponents)
      let stride ← sequenceStride abi (.items address list)
      validateList abi stride list ctx

/-- The loop of `dcc_component_v2_validate_children`. -/
def validateList (abi : Abi) (stride : Nat) : List Builder → Validation → Except Status Validation
  | [], ctx => .ok ctx
  | child :: list, ctx => do
      require (child.head.size = stride)
      let ctx ← validateOne abi child ctx
      validateList abi stride list ctx

/-- The end of `dcc_component_v2_validate_section`. -/
def validateAccessory (abi : Abi) : Option Builder → Validation → Except Status Validation
  | none, _ => .error .invalidArg
  | some accessory, ctx => validateOne abi accessory ctx

end

/-- `dcc_component_v2_validate_array`. -/
def validateArray (abi : Abi) (builders : Span Builder) : Except Status Unit := do
  require (builders.count ≤ maxComponents)
  let stride ← sequenceStride abi builders
  let _ ← validateList abi stride builders.list ⟨[], [], 0⟩
  return ()

/-! ## The place -/

/-- `dcc_component_v2_context_t`. -/
inductive Context
  | any
  | messageLegacy
  | messageV2
  | modal
  | unknown (number : UInt32)
  deriving DecidableEq

/-- `dcc_component_v2_message_root_allowed`. -/
def messageRootAllowed : ComponentType → Bool
  | .actionRow | .sectionType | .textDisplay | .mediaGallery | .file | .separator | .container =>
    true
  | _ => false

/-- `dcc_component_v2_container_child_allowed`. -/
def containerChildAllowed : ComponentType → Bool
  | .actionRow | .textDisplay | .sectionType | .mediaGallery | .separator | .file => true
  | _ => false

mutual

/-- `dcc_component_v2_validate_message_layout`. -/
def validateMessageLayout (abi : Abi) : Builder → ComponentType → Bool → Except Status Unit
  | .mk head children accessory, parent, isRoot => do
      require (!(isRoot && !messageRootAllowed head.type))
      require (!(!isRoot && parent = .container && !containerChildAllowed head.type))
      require (!(head.type = .container && children.count = 0))
      if head.type.isLayout then
        layoutOfChildren abi children head.type
      if head.type = .sectionType then
        layoutOfAccessory abi accessory head.type

def layoutOfChildren (abi : Abi) : Span Builder → ComponentType → Except Status Unit
  | .null count, _ => do
      let _ ← sequenceStride abi (.null count)
      return ()
  | .items address list, parent => do
      let _ ← sequenceStride abi (.items address list)
      layoutOfList abi list parent

def layoutOfList (abi : Abi) : List Builder → ComponentType → Except Status Unit
  | [], _ => .ok ()
  | child :: list, parent => do
      validateMessageLayout abi child parent false
      layoutOfList abi list parent

def layoutOfAccessory (abi : Abi) : Option Builder → ComponentType → Except Status Unit
  | none, _ => .ok ()
  | some accessory, parent => validateMessageLayout abi accessory parent false

end

/-- The fields that a select may not have in a place. -/
def selectFieldsAllowed (view : View) (context : Context) : Bool :=
  !((context = .messageLegacy || context = .messageV2) && view.hasRequired) &&
    !(context = .modal && view.hasDisabled)

mutual

/-- `dcc_component_v2_validate_context_fields`. -/
def validateContextFields (abi : Abi) (context : Context) : Builder → Except Status Unit
  | .mk head children accessory => do
      require (!head.type.isSelect || selectFieldsAllowed head.view context)
      if head.type.isLayout then
        contextOfChildren abi context children
      if head.type = .sectionType then
        contextOfAccessory abi context accessory

def contextOfChildren (abi : Abi) (context : Context) : Span Builder → Except Status Unit
  | .null count => do
      let _ ← sequenceStride abi (.null count)
      return ()
  | .items address list => do
      let _ ← sequenceStride abi (.items address list)
      contextOfList abi context list

def contextOfList (abi : Abi) (context : Context) : List Builder → Except Status Unit
  | [] => .ok ()
  | child :: list => do
      validateContextFields abi context child
      contextOfList abi context list

def contextOfAccessory (abi : Abi) (context : Context) : Option Builder → Except Status Unit
  | none => .ok ()
  | some accessory => validateContextFields abi context accessory

end

/-- The loop over the roots of a modal. -/
def validateModalRoots (abi : Abi) : List Builder → Except Status Unit
  | [] => .ok ()
  | item :: list => do
      require (item.type = .label || item.type = .textDisplay)
      validateContextFields abi .modal item
      validateModalRoots abi list

/-- The loop over the roots of a message of the older kind. -/
def validateLegacyRoots (abi : Abi) : List Builder → Except Status Unit
  | [] => .ok ()
  | item :: list => do
      require (item.type = .actionRow)
      validateContextFields abi .messageLegacy item
      validateLegacyRoots abi list

/-- The loop over the roots of a message. -/
def validateMessageRoots (abi : Abi) : List Builder → Except Status Unit
  | [] => .ok ()
  | item :: list => do
      validateMessageLayout abi item item.type true
      validateContextFields abi .messageV2 item
      validateMessageRoots abi list

/-- `dcc_component_v2_validate_array_context`. -/
def validateArrayContext (abi : Abi) (builders : Span Builder) (context : Context) :
    Except Status Unit := do
  validateArray abi builders
  if context = .any then
    return ()
  let _ ← sequenceStride abi builders
  match context with
  | .modal => do
      require (builders.count ≠ 0 && builders.count ≤ 5)
      validateModalRoots abi builders.list
  | .messageLegacy => do
      require (builders.count ≤ 5)
      validateLegacyRoots abi builders.list
  | .messageV2 => validateMessageRoots abi builders.list
  | _ => .error .invalidArg

end Dcc.Components
