import Dcc.Basic

/-!
# Component builders

A message or a modal is built from components: records with a size, a version, a mask of the
fields that are set, a type, and a union of the members that the type has.  Four types hold other
components in an array behind a pointer, and a section has one more as its accessory, so builders
are trees.  The validator and the serializer read a builder through a normalized view.

* `Builder` — a builder, with the builders below it;
* `Head.view` — the normalized view;
* `Builder.subtrees` — all the components of a tree, in the order in which they are read.
-/

namespace Dcc.Components

/-- `dcc_component_v2_type_t`, with the numbers that are not one. -/
inductive ComponentType
  | actionRow
  | button
  | stringSelect
  | textInput
  | userSelect
  | roleSelect
  | mentionableSelect
  | channelSelect
  | sectionType
  | textDisplay
  | thumbnail
  | mediaGallery
  | file
  | separator
  | container
  | label
  | fileUpload
  | radioGroup
  | checkboxGroup
  | checkbox
  | unknown (number : UInt32)
  deriving DecidableEq

/-- The number of a type. -/
def ComponentType.number : ComponentType → UInt32
  | .actionRow => 1
  | .button => 2
  | .stringSelect => 3
  | .textInput => 4
  | .userSelect => 5
  | .roleSelect => 6
  | .mentionableSelect => 7
  | .channelSelect => 8
  | .sectionType => 9
  | .textDisplay => 10
  | .thumbnail => 11
  | .mediaGallery => 12
  | .file => 13
  | .separator => 14
  | .container => 17
  | .label => 18
  | .fileUpload => 19
  | .radioGroup => 21
  | .checkboxGroup => 22
  | .checkbox => 23
  | .unknown number => number

/-- `dcc_component_v2_type_valid`. -/
def ComponentType.valid : ComponentType → Bool
  | .unknown _ => false
  | _ => true

/-- `dcc_component_v2_is_select`. -/
def ComponentType.isSelect : ComponentType → Bool
  | .stringSelect | .userSelect | .roleSelect | .mentionableSelect | .channelSelect => true
  | _ => false

/-- `dcc_component_v2_field_t`. -/
inductive Field
  | id
  | components
  | style
  | label
  | emoji
  | customId
  | url
  | skuId
  | disabled
  | options
  | placeholder
  | defaultValues
  | channelTypes
  | minValues
  | maxValues
  | required
  | minLength
  | maxLength
  | value
  | accessory
  | content
  | media
  | description
  | spoiler
  | items
  | divider
  | spacing
  | accentColor
  | component
  | fileTypes
  | defaultValue
  deriving DecidableEq

/-- The fields in the order of their numbers. -/
def Field.all : List Field :=
  [.id, .components, .style, .label, .emoji, .customId, .url, .skuId, .disabled, .options,
    .placeholder, .defaultValues, .channelTypes, .minValues, .maxValues, .required, .minLength,
    .maxLength, .value, .accessory, .content, .media, .description, .spoiler, .items, .divider,
    .spacing, .accentColor, .component, .fileTypes, .defaultValue]

/-- `dcc_component_v2_field_mask`. -/
def fieldMask (field : Field) : UInt64 := UInt64.ofNat (2 ^ Field.all.idxOf field)

/-- The masks of some fields together. -/
def masks (fields : List Field) : UInt64 :=
  fields.foldl (fun mask field => mask ||| fieldMask field) 0

/-- An array behind a pointer, with its length. -/
inductive Span (α : Type)
  | null (count : Nat)
  | items (address : Nat) (list : List α)

/-- The length that the caller gives. -/
def Span.count {α : Type} : Span α → Nat
  | .null count => count
  | .items _ list => list.length

/-- What is behind the pointer. -/
def Span.list {α : Type} : Span α → List α
  | .null _ => []
  | .items _ list => list

def Span.isNull {α : Type} : Span α → Bool
  | .null _ => true
  | .items _ _ => false

/-- `dcc_component_emoji_t`. -/
structure Emoji where
  name : Option Bytes
  id : UInt64
  animated : UInt8
  hasId : Bool
  hasAnimated : Bool
  deriving DecidableEq

/-- `dcc_select_option_t`. -/
structure SelectOption where
  label : Option Bytes
  value : Option Bytes
  description : Option Bytes
  emoji : Emoji
  isDefault : UInt8
  hasDefault : Bool
  hasEmoji : Bool

/-- `dcc_component_v2_choice_option_t`. -/
structure ChoiceOption where
  label : Option Bytes
  value : Option Bytes
  description : Option Bytes
  isDefault : UInt8
  hasDefault : UInt8

/-- `dcc_component_v2_select_default_type_t`. -/
inductive DefaultType
  | user
  | role
  | channel
  | unknown (number : UInt32)
  deriving DecidableEq

/-- `dcc_component_v2_select_default_value_t`. -/
structure DefaultValue where
  id : UInt64
  type : DefaultType

/-- `dcc_component_v2_media_t`, and `dcc_component_v2_media_gallery_item_t`, which is laid out
like it. -/
structure Media where
  url : Option Bytes
  description : Option Bytes
  spoiler : UInt8
  hasSpoiler : Bool

/-- `dcc_component_v2_button_value_t`, with what the union of the target reads as. -/
structure ButtonValue where
  style : UInt32
  label : Option Bytes
  emoji : Emoji
  disabled : UInt8
  customId : Option Bytes
  url : Option Bytes
  skuId : UInt64

/-- `dcc_component_v2_select_value_t`, with what the union of the data reads as. -/
structure SelectValue where
  customId : Option Bytes
  placeholder : Option Bytes
  minValues : UInt32
  maxValues : UInt32
  required : UInt8
  disabled : UInt8
  options : Span SelectOption
  defaultValues : Span DefaultValue
  channelTypes : Span UInt32

/-- `dcc_component_v2_text_input_value_t`. -/
structure TextInputValue where
  customId : Option Bytes
  style : UInt32
  placeholder : Option Bytes
  minLength : UInt32
  maxLength : UInt32
  value : Option Bytes
  required : UInt8

/-- `dcc_component_v2_layout_value_t` but for the components below. -/
structure LayoutValue where
  accentColor : UInt32
  spoiler : UInt8
  label : Option Bytes
  description : Option Bytes

/-- `dcc_component_v2_media_value_t`: `url`, `description` and `spoiler` of a thumbnail or a
file, and the items of a gallery. -/
structure MediaValue where
  url : Option Bytes
  description : Option Bytes
  spoiler : UInt8
  items : Span Media

/-- `dcc_component_v2_modal_value_t`. -/
structure ModalValue where
  customId : Option Bytes
  minValues : UInt32
  maxValues : UInt32
  required : UInt8
  fileTypes : Span (Option Bytes)
  options : Span ChoiceOption
  defaultValue : UInt8

/-- The union of a builder: each of its members, as it reads.  Members that the size of the
builder does not reach read as zero. -/
structure Members where
  button : ButtonValue
  select : SelectValue
  layout : LayoutValue
  media : MediaValue
  textInput : TextInputValue
  modal : ModalValue
  /-- `dcc_component_v2_text_display_value_t`. -/
  content : Option Bytes
  /-- `dcc_component_v2_separator_value_t`. -/
  divider : UInt8
  spacing : UInt32

/-- A union whose bytes are all zero. -/
def Members.zero : Members where
  button := ⟨0, none, ⟨none, 0, 0, false, false⟩, 0, none, none, 0⟩
  select := ⟨none, none, 0, 0, 0, 0, .null 0, .null 0, .null 0⟩
  layout := ⟨0, 0, none, none⟩
  media := ⟨none, none, 0, .null 0⟩
  textInput := ⟨none, 0, none, 0, 0, none, 0⟩
  modal := ⟨none, 0, 0, 0, .null 0, .null 0, 0⟩
  content := none
  divider := 0
  spacing := 0

/-- `dcc_component_v2_builder_t` but for the components below. -/
structure Head where
  size : Nat
  version : UInt32
  present : UInt64
  type : ComponentType
  id : UInt32
  members : Members

/-- A builder with those below it: the children that the layout of its type has (a label has the
one of its `component`), and the accessory of a section. -/
inductive Builder
  | mk (head : Head) (children : Span Builder) (accessory : Option Builder)

def Builder.head : Builder → Head
  | .mk head _ _ => head

def Builder.children : Builder → Span Builder
  | .mk _ children _ => children

def Builder.accessory : Builder → Option Builder
  | .mk _ _ accessory => accessory

def Builder.type (b : Builder) : ComponentType := b.head.type

section

variable (head : Head) (children : Span Builder) (accessory : Option Builder)

@[simp] theorem mk_head : (Builder.mk head children accessory).head = head := rfl

@[simp] theorem mk_type : (Builder.mk head children accessory).type = head.type := rfl

end

/-! ## The normalized view -/

/-- `present`. -/
def Head.has (head : Head) (field : Field) : Bool := head.present &&& fieldMask field ≠ 0

/-- `dcc_component_v2_normalized_view_t` but for the components below. -/
structure View where
  type : ComponentType
  id : UInt32 := 0
  buttonStyle : UInt32 := 0
  textInputStyle : UInt32 := 0
  spacing : UInt32 := 0
  content : Option Bytes := none
  customId : Option Bytes := none
  label : Option Bytes := none
  description : Option Bytes := none
  placeholder : Option Bytes := none
  url : Option Bytes := none
  value : Option Bytes := none
  skuId : UInt64 := 0
  emoji : Emoji := ⟨none, 0, 0, false, false⟩
  options : Span SelectOption := .null 0
  choiceOptions : Span ChoiceOption := .null 0
  defaultValues : Span DefaultValue := .null 0
  channelTypes : Span UInt32 := .null 0
  media : Span Media := .null 0
  fileTypes : Span (Option Bytes) := .null 0
  minValues : UInt32 := 0
  maxValues : UInt32 := 0
  minLength : UInt32 := 0
  maxLength : UInt32 := 0
  accentColor : UInt32 := 0
  disabled : UInt8 := 0
  required : UInt8 := 0
  divider : UInt8 := 0
  spoiler : UInt8 := 0
  checked : UInt8 := 0
  hasId : Bool := false
  hasButtonStyle : Bool := false
  hasTextInputStyle : Bool := false
  hasSpacing : Bool := false
  hasSkuId : Bool := false
  hasEmoji : Bool := false
  hasMinValues : Bool := false
  hasMaxValues : Bool := false
  hasMinLength : Bool := false
  hasMaxLength : Bool := false
  hasAccentColor : Bool := false
  hasDisabled : Bool := false
  hasRequired : Bool := false
  hasDivider : Bool := false
  hasSpoiler : Bool := false
  hasChecked : Bool := false

/-- The types whose layout has components. -/
def ComponentType.isLayout : ComponentType → Bool
  | .actionRow | .sectionType | .container | .label => true
  | _ => false

/-- The part of the view that every type has. -/
def Head.plainView (head : Head) : View where
  type := head.type
  id := head.id
  hasId := head.has .id

/-- The view of a select. -/
def Head.selectView (head : Head) : View :=
  let select := head.members.select
  { head.plainView with
    customId := select.customId
    placeholder := select.placeholder
    minValues := select.minValues
    maxValues := select.maxValues
    required := select.required
    disabled := select.disabled
    hasMinValues := head.has .minValues
    hasMaxValues := head.has .maxValues
    hasRequired := head.has .required
    hasDisabled := head.has .disabled
    options := if head.type = .stringSelect then select.options else .null 0
    defaultValues := if head.type = .stringSelect then .null 0 else select.defaultValues
    channelTypes := if head.type = .channelSelect then select.channelTypes else .null 0 }

/-- The medium of a thumbnail or a file, in the view. -/
def Head.mediaOne (head : Head) : Media where
  url := head.members.media.url
  description := if head.type = .thumbnail then head.members.media.description else none
  spoiler := head.members.media.spoiler
  hasSpoiler := head.has .spoiler

/-- `dcc_component_v2_normalize_view` but for the components below. -/
def Head.view (head : Head) : View :=
  let view := head.plainView
  let button := head.members.button
  let layout := head.members.layout
  let textInput := head.members.textInput
  let modal := head.members.modal
  match head.type with
  | .actionRow | .sectionType => view
  | .button =>
    { view with
      buttonStyle := button.style
      label := button.label
      emoji := button.emoji
      disabled := button.disabled
      hasButtonStyle := head.has .style
      hasEmoji := head.has .emoji
      hasDisabled := head.has .disabled
      hasSkuId := head.has .skuId
      customId := if head.has .customId then button.customId else none
      url := if head.has .url then button.url else none
      skuId := if head.has .skuId then button.skuId else 0 }
  | .stringSelect | .userSelect | .roleSelect | .mentionableSelect | .channelSelect =>
    head.selectView
  | .textInput =>
    { view with
      customId := textInput.customId
      textInputStyle := textInput.style
      placeholder := textInput.placeholder
      minLength := textInput.minLength
      maxLength := textInput.maxLength
      value := textInput.value
      required := textInput.required
      hasTextInputStyle := head.has .style
      hasMinLength := head.has .minLength
      hasMaxLength := head.has .maxLength
      hasRequired := head.has .required }
  | .textDisplay => { view with content := head.members.content }
  -- the one medium stands in the view itself, so its address is never null
  | .thumbnail | .file => { view with media := .items 0 [head.mediaOne] }
  | .mediaGallery => { view with media := head.members.media.items }
  | .separator =>
    { view with
      divider := head.members.divider
      spacing := head.members.spacing
      hasDivider := head.has .divider
      hasSpacing := head.has .spacing }
  | .container =>
    { view with
      accentColor := layout.accentColor
      spoiler := layout.spoiler
      hasAccentColor := head.has .accentColor
      hasSpoiler := head.has .spoiler }
  | .label => { view with label := layout.label, description := layout.description }
  | .fileUpload =>
    { view with
      customId := modal.customId
      minValues := modal.minValues
      maxValues := modal.maxValues
      required := modal.required
      fileTypes := modal.fileTypes
      hasMinValues := head.has .minValues
      hasMaxValues := head.has .maxValues
      hasRequired := head.has .required }
  | .radioGroup =>
    { view with
      customId := modal.customId
      choiceOptions := modal.options
      required := modal.required
      hasRequired := head.has .required }
  | .checkboxGroup =>
    { view with
      customId := modal.customId
      choiceOptions := modal.options
      minValues := modal.minValues
      maxValues := modal.maxValues
      required := modal.required
      hasMinValues := head.has .minValues
      hasMaxValues := head.has .maxValues
      hasRequired := head.has .required }
  | .checkbox =>
    { view with
      customId := modal.customId
      checked := modal.defaultValue
      hasChecked := head.has .defaultValue }
  | .unknown _ => view

@[simp] theorem view_type (head : Head) : head.view.type = head.type := by
  rw [Head.view]
  split <;> rfl

@[simp] theorem view_id (head : Head) : head.view.id = head.id := by
  rw [Head.view]
  split <;> rfl

@[simp] theorem view_hasId (head : Head) : head.view.hasId = head.has .id := by
  rw [Head.view]
  split <;> rfl

/-- The children in the view of a builder. -/
def Builder.viewChildren (b : Builder) : Span Builder :=
  if b.type.isLayout then b.children else .null 0

/-- The accessory in the view of a builder. -/
def Builder.viewAccessory (b : Builder) : Option Builder :=
  if b.type = .sectionType then b.accessory else none

/-! ## The components of a tree -/

mutual

/-- A component and those below it: the component, its children, its accessory. -/
def Builder.subtrees : Builder → List Builder
  | .mk head children accessory =>
    .mk head children accessory :: ((if head.type.isLayout then Span.subtrees children else []) ++
        (if head.type = .sectionType then subtreesOfAccessory accessory else []))

/-- The components of an array. -/
def Span.subtrees : Span Builder → List Builder
  | .null _ => []
  | .items _ list => subtreesOfList list

def subtreesOfList : List Builder → List Builder
  | [] => []
  | b :: list => b.subtrees ++ subtreesOfList list

def subtreesOfAccessory : Option Builder → List Builder
  | none => []
  | some b => b.subtrees

end

/-- The components below a component. -/
def Builder.descendants (b : Builder) : List Builder := b.subtrees.tail

theorem subtreesOfList_eq (list : List Builder) :
    subtreesOfList list = list.flatMap Builder.subtrees := by
  induction list with
  | nil => rfl
  | cons b list ih => rw [subtreesOfList, ih, List.flatMap_cons]

theorem mem_subtrees_self (b : Builder) : b ∈ b.subtrees := by
  obtain ⟨head, children, accessory⟩ := b
  rw [Builder.subtrees]
  exact List.mem_cons_self

end Dcc.Components
