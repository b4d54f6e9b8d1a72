import Dcc.Components.Sound
import Dcc.Components.Writes
import Mathlib.Data.List.Forall2

/-!
# The JSON of a component

A component is an object with its type, its id where it has one, and the members of its type.  What
the validation has accepted is written without a failure: no text and no array that is written is
behind a null pointer.

* `mirror` — a component as a value.
-/

namespace Dcc.Components

open Dcc.Json Dcc.Json.Grammar Dcc.Commands Dcc.Rest Dcc.Session Decimal

/-! ## Components as values -/

/-- An array of values, where there are any. -/
def itemsValue (items : List Value) : Option Value :=
  if items.isEmpty then none else some (.array items)

/-- A flag of a structure that has it. -/
def flagOf (has : Bool) (value : UInt8) : Option Value :=
  if has then some (boolValue value) else none

/-- A number of a structure that has it. -/
def numberOf (has : Bool) (value : UInt32) : Option Value :=
  if has then some (u32Value value) else none

def emojiValue (emoji : Emoji) : Value :=
  .object (present
    [(asciiText "id", if emoji.hasId then some (snowflakeValue emoji.id) else none),
      (asciiText "name", emoji.name.map .string),
      (asciiText "animated", flagOf emoji.hasAnimated emoji.animated)])

def mediaObjectValue (medium : Media) : Value :=
  .object (present [(asciiText "url", medium.url.map .string)])

def mediaItemValue (medium : Media) : Value :=
  .object (present
    [(asciiText "media", some (mediaObjectValue medium)),
      (asciiText "description", medium.description.map .string),
      (asciiText "spoiler", flagOf medium.hasSpoiler medium.spoiler)])

def optionValue (option : SelectOption) : Value :=
  .object (present
    [(asciiText "label", option.label.map .string), (asciiText "value", option.value.map .string),
      (asciiText "description", option.description.map .string),
      (asciiText "emoji", if option.hasEmoji then some (emojiValue option.emoji) else none),
      (asciiText "default", flagOf option.hasDefault option.isDefault)])

def choiceOptionValue (option : ChoiceOption) : Value :=
  .object (present
    [(asciiText "label", option.label.map .string), (asciiText "value", option.value.map .string),
      (asciiText "description", option.description.map .string),
      (asciiText "default", flagOf (option.hasDefault ≠ 0) option.isDefault)])

def defaultValueValue (value : DefaultValue) : Value :=
  .object (present
    [(asciiText "id", some (snowflakeValue value.id)),
      (asciiText "type", (defaultTypeName value.type).map .string)])

/-- A file type of an upload. -/
def fileTypeValue (type : Option Bytes) : Value := .string (type.getD [])

/-- The members of every component. -/
def plainValues (view : View) : List (Bytes × Option Value) :=
  [(asciiText "type", some (u32Value view.type.number)),
    (asciiText "id", numberOf view.hasId view.id)]

/-- The members of a component that holds no others. -/
def leafValues (view : View) : List (Bytes × Option Value) :=
  match view.type with
  | .button =>
    [(asciiText "style", numberOf view.hasButtonStyle view.buttonStyle),
      (asciiText "label", view.label.map .string),
      (asciiText "emoji", if view.hasEmoji then some (emojiValue view.emoji) else none),
      (asciiText "custom_id", view.customId.map .string),
      (asciiText "url", view.url.map .string),
      (asciiText "sku_id", if view.hasSkuId then some (snowflakeValue view.skuId) else none),
      (asciiText "disabled", flagOf view.hasDisabled view.disabled)]
  | .stringSelect | .userSelect | .roleSelect | .mentionableSelect | .channelSelect =>
    [(asciiText "custom_id", view.customId.map .string),
      (asciiText "options", itemsValue (view.options.list.map optionValue)),
      (asciiText "default_values", itemsValue (view.defaultValues.list.map defaultValueValue)),
      (asciiText "channel_types", itemsValue (view.channelTypes.list.map u32Value)),
      (asciiText "placeholder", view.placeholder.map .string),
      (asciiText "min_values", numberOf view.hasMinValues view.minValues),
      (asciiText "max_values", numberOf view.hasMaxValues view.maxValues),
      (asciiText "disabled", flagOf view.hasDisabled view.disabled),
      (asciiText "required", flagOf view.hasRequired view.required)]
  | .textInput =>
    [(asciiText "custom_id", view.customId.map .string),
      (asciiText "style", numberOf view.hasTextInputStyle view.textInputStyle),
      (asciiText "placeholder", view.placeholder.map .string),
      (asciiText "min_length", numberOf view.hasMinLength view.minLength),
      (asciiText "max_length", numberOf view.hasMaxLength view.maxLength),
      (asciiText "value", view.value.map .string),
      (asciiText "required", flagOf view.hasRequired view.required)]
  | .textDisplay => [(asciiText "content", view.content.map .string)]
  | .thumbnail | .file =>
    let medium := view.media.list.head?
    [(if view.type = .file then asciiText "file" else asciiText "media",
        medium.map mediaObjectValue),
      (asciiText "description", (medium.bind Media.description).map .string),
      (asciiText "spoiler", medium.bind fun medium => flagOf medium.hasSpoiler medium.spoiler)]
  | .mediaGallery => [(asciiText "items", some (.array (view.media.list.map mediaItemValue)))]
  | .separator =>
    [(asciiText "divider", flagOf view.hasDivider view.divider),
      (asciiText "spacing", numberOf view.hasSpacing view.spacing)]
  | .fileUpload =>
    [(asciiText "custom_id", view.customId.map .string),
      (asciiText "min_values", numberOf view.hasMinValues view.minValues),
      (asciiText "max_values", numberOf view.hasMaxValues view.maxValues),
      (asciiText "required", flagOf view.hasRequired view.required),
      (asciiText "file_types", itemsValue (view.fileTypes.list.map fileTypeValue))]
  | .radioGroup =>
    [(asciiText "custom_id", view.customId.map .string),
      (asciiText "options", some (.array (view.choiceOptions.list.map choiceOptionValue))),
      (asciiText "required", flagOf view.hasRequired view.required)]
  | .checkboxGroup =>
    [(asciiText "custom_id", view.customId.map .string),
      (asciiText "options", some (.array (view.choiceOptions.list.map choiceOptionValue))),
      (asciiText "required", flagOf view.hasRequired view.required),
      (asciiText "min_values", numberOf view.hasMinValues view.minValues),
      (asciiText "max_values", numberOf view.hasMaxValues view.maxValues)]
  | .checkbox =>
    [(asciiText "custom_id", view.customId.map .string),
      (asciiText "default", flagOf view.hasChecked view.checked)]
  | _ => []

mutual

/-- **A component as a value**: its type, its id, and the members of its type, with the components
that it holds. -/
def mirror : Builder → Value
  | .mk head children accessory =>
    let view := head.view
    match head.type with
    | .actionRow =>
      .object (present (plainValues view ++
        [(asciiText "components", itemsValue (mirrorAll children))]))
    | .container =>
      .object (present (plainValues view ++
        [(asciiText "components", itemsValue (mirrorAll children)),
          (asciiText "accent_color", numberOf view.hasAccentColor view.accentColor),
          (asciiText "spoiler", flagOf view.hasSpoiler view.spoiler)]))
    | .sectionType =>
      .object (present (plainValues view ++
        [(asciiText "components", itemsValue (mirrorAll children)),
          (asciiText "accessory", mirrorAccessory accessory)]))
    | .label =>
      .object (present (plainValues view ++ [(asciiText "label", view.label.map .string),
          (asciiText "description", view.description.map .string),
          (asciiText "component", (mirrorAll children).head?)]))
    | _ => .object (present (plainValues view ++ leafValues view))

def mirrorAll : Span Builder → List Value
  | .null _ => []
  | .items _ list => mirrorList list

def mirrorList : List Builder → List Value
  | [] => []
  | b :: list => mirror b :: mirrorList list

def mirrorAccessory : Option Builder → Option Value
  | none => none
  | some b => some (mirror b)

end

theorem mirrorList_eq (list : List Builder) : mirrorList list = list.map mirror := by
  induction list with
  | nil => rfl
  | cons b list ih => rw [mirrorList, ih, List.map_cons]

theorem mirrorAll_eq (builders : Span Builder) : mirrorAll builders = builders.list.map mirror := by
  cases builders with
  | null count => rfl
  | items address list => exact mirrorList_eq list

/-! ## Names -/

/-- The names of the members of a type. -/
def memberNames : ComponentType → List Bytes
  | .actionRow => ["type", "id", "components"].map asciiText
  | .button =>
    ["type", "id", "style", "label", "emoji", "custom_id", "url", "sku_id", "disabled"].map
      asciiText
  | .stringSelect | .userSelect | .roleSelect | .mentionableSelect | .channelSelect =>
    ["type", "id", "custom_id", "options", "default_values", "channel_types", "placeholder",
      "min_values", "max_values", "disabled", "required"].map asciiText
  | .textInput =>
    ["type", "id", "custom_id", "style", "placeholder", "min_length", "max_length", "value",
      "required"].map asciiText
  | .sectionType => ["type", "id", "components", "accessory"].map asciiText
  | .textDisplay => ["type", "id", "content"].map asciiText
  | .thumbnail => ["type", "id", "media", "description", "spoiler"].map asciiText
  | .mediaGallery => ["type", "id", "items"].map asciiText
  | .file => ["type", "id", "file", "description", "spoiler"].map asciiText
  | .separator => ["type", "id", "divider", "spacing"].map asciiText
  | .container => ["type", "id", "components", "accent_color", "spoiler"].map asciiText
  | .label => ["type", "id", "label", "description", "component"].map asciiText
  | .fileUpload =>
    ["type", "id", "custom_id", "min_values", "max_values", "required", "file_types"].map
      asciiText
  | .radioGroup => ["type", "id", "custom_id", "options", "required"].map asciiText
  | .checkboxGroup =>
    ["type", "id", "custom_id", "options", "required", "min_values", "max_values"].map asciiText
  | .checkbox => ["type", "id", "custom_id", "default"].map asciiText
  | .unknown _ => ["type", "id"].map asciiText

/-- Names that are distinct and written as they are. -/
def GoodNames (names : List Bytes) : Prop := names.Nodup ∧ names.all asciiKey = true

instance (names : List Bytes) : Decidable (GoodNames names) :=
  inferInstanceAs (Decidable (_ ∧ _))

theorem memberNames_good (type : ComponentType) : GoodNames (memberNames type) := by
  cases type with
  | unknown number =>
    have hplain : GoodNames (["type", "id"].map asciiText) := by decide
    exact hplain
  | _ => decide

theorem leafValues_names {view : View} (h : view.type.isLayout = false) :
    (plainValues view ++ leafValues view).map Prod.fst = memberNames view.type := by
  rw [leafValues]
  cases htype : view.type with
  | actionRow | sectionType | container | label =>
    rw [htype] at h
    cases h
  | _ => rfl

/-! ## Fields -/

section

variable {key : Bytes} {steps : Steps} {v : Value}

theorem fieldWrites_some (h : Writes steps v) : FieldWrites (key, some steps) (key, some v) :=
  ⟨rfl, .some h⟩

theorem fieldWrites_if {condition : Prop} [Decidable condition] (h : condition → Writes steps v) :
    FieldWrites (key, if condition then some steps else none)
      (key, if condition then some v else none) := by
  split_ifs with hcondition
  · exact fieldWrites_some (h hcondition)
  · exact ⟨rfl, .none⟩

theorem fieldWrites_u32 (has : Bool) (value : UInt32) :
    FieldWrites (key, if has then some (u32Steps value) else none) (key, numberOf has value) :=
  fieldWrites_if fun _ => writes_u32 value

theorem fieldWrites_bool (has : Bool) (value : UInt8) :
    FieldWrites (key, if has then some (boolSteps value) else none) (key, flagOf has value) :=
  fieldWrites_if fun _ => writes_bool value

/-- The text behind a pointer, if there is one, is UTF-8 without NUL. -/
def PlainString (value : Option Bytes) : Prop := ∀ text ∈ value, PlainText text

theorem fieldWrites_optional {value : Option Bytes} (h : PlainString value) :
    FieldWrites (key, optionalString value) (key, value.map .string) := by
  cases value with
  | none => exact ⟨rfl, .none⟩
  | some text => exact fieldWrites_some (writes_string (h text rfl))

theorem fieldWrites_required {value : Option Bytes} (hthere : value ≠ none)
    (h : PlainString value) :
    FieldWrites (key, some (escapedString value)) (key, value.map .string) := by
  cases value with
  | none => exact absurd rfl hthere
  | some text => exact fieldWrites_some (writes_string (h text rfl))

theorem fieldWrites_items {α : Type} {write : α → Steps} {value : α → Value} {values : Span α}
    (hbacked : values.Backed) (h : ∀ item ∈ values.list, Writes (write item) (value item)) :
    FieldWrites (key, nonemptyArray write values)
      (key, itemsValue (values.list.map value)) := by
  rw [nonemptyArray, itemsValue, hbacked]
  cases hlist : values.list with
  | nil => exact ⟨rfl, .none⟩
  | cons item list =>
    rw [← hlist]
    have hfield : FieldWrites (key, some (array write values))
        (key, some (.array (values.list.map value))) := fieldWrites_some (writes_array hbacked h)
    simpa [hlist] using hfield

end

/-! ## What a component holds besides components -/

theorem text_there {value : Option Bytes} {minLength maxLength : Nat}
    (h : stringLengthBetween value minLength maxLength = true) (hpos : 0 < minLength) :
    value ≠ none := by
  cases value with
  | none =>
    have hzero : minLength = 0 := by simpa [stringLengthBetween] using h
    omega
  | some text => simp

theorem backed_of_valid {α : Type} {itemSize : Nat} {values : Span α}
    (h : arraySpanValid itemSize values = true) : values.Backed := by
  cases values with
  | null count =>
    by_cases hcount : count = 0
    · exact hcount
    · simp [arraySpanValid, Span.count, hcount] at h
  | items address list => rfl

theorem list_of_count {α : Type} {values : Span α} (h : values.count = 0) :
    values.Backed ∧ values.list = [] := by
  cases values with
  | null count => exact ⟨h, rfl⟩
  | items address list => exact ⟨rfl, List.length_eq_zero_iff.mp h⟩

structure Media.Plain (medium : Media) : Prop where
  url : PlainString medium.url
  description : PlainString medium.description

structure SelectOption.Plain (option : SelectOption) : Prop where
  label : PlainString option.label
  value : PlainString option.value
  description : PlainString option.description
  emoji : option.hasEmoji = true → PlainString option.emoji.name

structure ChoiceOption.Plain (option : ChoiceOption) : Prop where
  label : PlainString option.label
  value : PlainString option.value
  description : PlainString option.description

/-- The texts of a component are UTF-8. -/
structure View.Plain (view : View) : Prop where
  content : PlainString view.content
  customId : PlainString view.customId
  label : PlainString view.label
  description : PlainString view.description
  placeholder : PlainString view.placeholder
  url : PlainString view.url
  value : PlainString view.value
  emoji : view.hasEmoji = true → PlainString view.emoji.name
  options : ∀ option ∈ view.options.list, option.Plain
  choiceOptions : ∀ option ∈ view.choiceOptions.list, option.Plain
  media : ∀ medium ∈ view.media.list, medium.Plain
  fileTypes : ∀ type ∈ view.fileTypes.list, PlainString type

theorem writes_emoji {emoji : Emoji} (hvalid : emojiValid emoji = true)
    (h : PlainString emoji.name) : Writes (appendEmoji emoji) (emojiValue emoji) := by
  have hguard : (!emoji.hasId && emoji.name.isNone) = false := by
    simpa [emojiValid, or_iff_not_imp_left] using hvalid
  have hnames : GoodNames (["id", "name", "animated"].map asciiText) := by decide
  rw [appendEmoji, hguard]
  exact writes_object (.cons (fieldWrites_if fun _ => writes_snowflake _)
    (.cons (fieldWrites_optional h) (.cons (fieldWrites_bool _ _) .nil))) hnames.1 hnames.2

theorem writes_mediaObject {medium : Media} (hthere : medium.url ≠ none) (h : medium.Plain) :
    Writes (appendMediaObject medium) (mediaObjectValue medium) := by
  have hnames : GoodNames (["url"].map asciiText) := by decide
  exact writes_object (.cons (fieldWrites_required hthere h.url) .nil) hnames.1 hnames.2

theorem writes_mediaItem {medium : Media} (hthere : medium.url ≠ none) (h : medium.Plain) :
    Writes (appendMediaItem medium) (mediaItemValue medium) := by
  have hnames : GoodNames (["media", "description", "spoiler"].map asciiText) := by decide
  exact writes_object (.cons (fieldWrites_some (writes_mediaObject hthere h))
    (.cons (fieldWrites_optional h.description) (.cons (fieldWrites_bool _ _) .nil)))
    hnames.1 hnames.2

theorem writes_option {option : SelectOption} (hlabel : option.label ≠ none)
    (hvalue : option.value ≠ none) (hemoji : option.hasEmoji = true → emojiValid option.emoji = true)
    (h : option.Plain) : Writes (appendOption option) (optionValue option) := by
  have hnames : GoodNames (["label", "value", "description", "emoji", "default"].map asciiText) := by
    decide
  have hemojiField : option.hasEmoji = true →
      Writes (appendEmoji option.emoji) (emojiValue option.emoji) :=
    fun hhas => writes_emoji (hemoji hhas) (h.emoji hhas)
  exact writes_object (.cons (fieldWrites_required hlabel h.label)
    (.cons (fieldWrites_required hvalue h.value) (.cons (fieldWrites_optional h.description)
      (.cons (fieldWrites_if hemojiField) (.cons (fieldWrites_bool _ _) .nil)))))
    hnames.1 hnames.2

theorem writes_choiceOption {option : ChoiceOption} (hlabel : option.label ≠ none)
    (hvalue : option.value ≠ none) (h : option.Plain) :
    Writes (appendChoiceOption option) (choiceOptionValue option) := by
  have hnames : GoodNames (["label", "value", "description", "default"].map asciiText) := by decide
  have hdefault : FieldWrites
      (asciiText "default", if option.hasDefault ≠ 0 then some (boolSteps option.isDefault) else none)
      (asciiText "default", flagOf (option.hasDefault ≠ 0) option.isDefault) := by
    simpa only [decide_eq_true_eq] using
      fieldWrites_bool (decide (option.hasDefault ≠ 0)) option.isDefault
  exact writes_object (.cons (fieldWrites_required hlabel h.label)
    (.cons (fieldWrites_required hvalue h.value) (.cons (fieldWrites_optional h.description)
      (.cons hdefault .nil)))) hnames.1 hnames.2

theorem writes_defaultValue {selectType : ComponentType} {value : DefaultValue}
    (h : selectDefaultTypeAllowed selectType value.type = true) :
    Writes (appendDefaultValue value) (defaultValueValue value) := by
  have hnames : GoodNames (["id", "type"].map asciiText) := by decide
  obtain ⟨name, hname, hplain⟩ : ∃ name, defaultTypeName value.type = some name ∧
      asciiKey name = true := by
    cases htype : value.type with
    | user => exact ⟨_, rfl, by decide⟩
    | role => exact ⟨_, rfl, by decide⟩
    | channel => exact ⟨_, rfl, by decide⟩
    | unknown number =>
      rw [htype] at h
      cases selectType <;> simp [selectDefaultTypeAllowed] at h
  rw [appendDefaultValue, defaultValueValue, hname]
  exact writes_object (.cons (fieldWrites_some (writes_snowflake _))
    (.cons (fieldWrites_some (writes_string (plainKey_of_asciiKey hplain).1)) .nil))
    hnames.1 hnames.2

/-! ## A component that holds no others -/

theorem writes_fields {view : View} {fields : List (Bytes × Option Steps)}
    {values : List (Bytes × Option Value)}
    (hnames : (plainValues view ++ values).map Prod.fst = memberNames view.type)
    (h : FieldsWrite fields values) :
    Writes (object (plainFields view ++ fields))
      (.object (present (plainValues view ++ values))) := by
  have hplain : FieldsWrite (plainFields view) (plainValues view) :=
    .cons (fieldWrites_some (writes_u32 _)) (.cons (fieldWrites_u32 _ _) .nil)
  obtain ⟨hdistinct, hascii⟩ := memberNames_good view.type
  refine writes_object (List.rel_append hplain h) ?_ ?_
  · rw [hnames]
    exact hdistinct
  · rw [hnames]
    exact hascii

variable {minCount maxCount : Nat}

theorem optionsValid_ok {abi : Abi} {options : Span SelectOption}
    (h : optionsValid abi options minCount maxCount = true)
    (hplain : ∀ option ∈ options.list, option.Plain) :
    options.Backed ∧ ∀ option ∈ options.list, Writes (appendOption option) (optionValue option) := by
  simp only [optionsValid, Bool.and_eq_true, List.all_eq_true] at h
  obtain ⟨⟨-, hspan⟩, hall⟩ := h
  refine ⟨backed_of_valid hspan, fun option hoption => ?_⟩
  obtain ⟨⟨⟨hlabel, hvalue⟩, -⟩, hemoji⟩ := hall option hoption
  refine writes_option (text_there hlabel Nat.one_pos) (text_there hvalue Nat.one_pos) ?_
    (hplain option hoption)
  intro hhas
  simpa [hhas] using hemoji

theorem choicesValid_ok {abi : Abi} {options : Span ChoiceOption}
    {radio : Bool} (h : choicesValid abi options minCount maxCount radio = true)
    (hplain : ∀ option ∈ options.list, option.Plain) :
    options.Backed ∧
      ∀ option ∈ options.list, Writes (appendChoiceOption option) (choiceOptionValue option) := by
  simp only [choicesValid, Bool.and_eq_true, List.all_eq_true] at h
  obtain ⟨⟨⟨-, hspan⟩, hall⟩, -⟩ := h
  refine ⟨backed_of_valid hspan, fun option hoption => ?_⟩
  obtain ⟨⟨⟨⟨hlabel, hvalue⟩, -⟩, -⟩, -⟩ := hall option hoption
  exact writes_choiceOption (text_there hlabel Nat.one_pos) (text_there hvalue Nat.one_pos)
    (hplain option hoption)

theorem mediaValid_ok {abi : Abi} {media : Span Media}
    (h : mediaValid abi media minCount maxCount = true) :
    media.Backed ∧ ∀ medium ∈ media.list, medium.url ≠ none := by
  simp only [mediaValid, Bool.and_eq_true, List.all_eq_true] at h
  obtain ⟨⟨-, hspan⟩, hall⟩ := h
  exact ⟨backed_of_valid hspan, fun medium hmedium =>
    text_there (hall medium hmedium).1 Nat.one_pos⟩

variable {type : ComponentType}

theorem selectDefaultsValid_ok {abi : Abi} {values : Span DefaultValue}
    (h : selectDefaultsValid abi type values = true) :
    values.Backed ∧
      ∀ value ∈ values.list, Writes (appendDefaultValue value) (defaultValueValue value) := by
  simp only [selectDefaultsValid, Bool.or_eq_true, Bool.and_eq_true, decide_eq_true_eq,
    List.all_eq_true] at h
  rcases h with hzero | ⟨⟨⟨hspan, -⟩, -⟩, hall⟩
  · obtain ⟨hbacked, hnil⟩ := list_of_count hzero
    exact ⟨hbacked, by simp [hnil]⟩
  · exact ⟨backed_of_valid hspan, fun value hvalue => writes_defaultValue (hall value hvalue).2⟩

theorem channelTypesValid_ok {abi : Abi} {types : Span UInt32}
    (h : channelTypesValid abi type types = true) : types.Backed := by
  simp only [channelTypesValid, Bool.or_eq_true, Bool.and_eq_true, decide_eq_true_eq] at h
  rcases h with hzero | ⟨-, hspan⟩
  · exact (list_of_count hzero).1
  · exact backed_of_valid hspan

theorem customId_there {ctx ctx' : Validation} {customId : Option Bytes}
    (h : validateCustomId ctx customId = .ok ctx') : customId ≠ none := by
  obtain ⟨text, htext, -⟩ := validateCustomId_ok h
  simp [htext]

section

variable {abi : Abi} {view : View} {ctx ctx' : Validation}

theorem button_writes (h : validateButton view ctx = .ok ctx') (hplain : view.Plain) :
    view.type = .button → FieldsWrite (leafFields view) (leafValues view) := by
  intro htype
  obtain ⟨_, -, h⟩ := bind_ok h
  obtain ⟨_, -, h⟩ := bind_ok h
  obtain ⟨_, hemoji, -⟩ := bind_ok h
  have hemoji := require_ok hemoji
  have hemojiField : view.hasEmoji = true → Writes (appendEmoji view.emoji) (emojiValue view.emoji) :=
    fun hhas => writes_emoji (by simpa [hhas] using hemoji) (hplain.emoji hhas)
  simp only [leafFields, leafValues, htype]
  exact .cons (fieldWrites_u32 _ _) (.cons (fieldWrites_optional hplain.label)
    (.cons (fieldWrites_if hemojiField) (.cons (fieldWrites_optional hplain.customId)
      (.cons (fieldWrites_optional hplain.url) (.cons (fieldWrites_if fun _ => writes_snowflake _)
        (.cons (fieldWrites_bool _ _) .nil))))))

theorem select_writes (h : validateSelect abi view ctx = .ok ctx') (hplain : view.Plain) :
    view.type.isSelect = true → FieldsWrite (leafFields view) (leafValues view) := by
  intro hselect
  obtain ⟨ctx₁, -, h⟩ := bind_ok h
  obtain ⟨_, hoptions, h⟩ := bind_ok h
  obtain ⟨_, -, h⟩ := bind_ok h
  obtain ⟨_, hdefaults, h⟩ := bind_ok h
  obtain ⟨_, hchannels, h⟩ := bind_ok h
  have hoptions : view.options.Backed ∧
      ∀ option ∈ view.options.list, Writes (appendOption option) (optionValue option) := by
    have hvalid := require_ok hoptions
    split_ifs at hvalid with hstring
    · exact optionsValid_ok hvalid hplain.options
    · obtain ⟨hbacked, hnil⟩ := list_of_count (of_decide_eq_true hvalid)
      exact ⟨hbacked, by simp [hnil]⟩
  have hdefaults := selectDefaultsValid_ok (require_ok hdefaults)
  have hchannels := channelTypesValid_ok (require_ok hchannels)
  have hfields : FieldsWrite (selectFieldSteps view) _ :=
    .cons (fieldWrites_optional hplain.customId) (.cons (fieldWrites_items hoptions.1 hoptions.2)
      (.cons (fieldWrites_items hdefaults.1 hdefaults.2)
        (.cons (fieldWrites_items hchannels fun type _ => writes_u32 type)
          (.cons (fieldWrites_optional hplain.placeholder) (.cons (fieldWrites_u32 _ _)
            (.cons (fieldWrites_u32 _ _) (.cons (fieldWrites_bool _ _)
              (.cons (fieldWrites_bool _ _) .nil))))))))
  cases htype : view.type with
  | stringSelect | userSelect | roleSelect | mentionableSelect | channelSelect =>
    simp only [leafFields, leafValues, htype]
    exact hfields
  | _ =>
    rw [htype] at hselect
    cases hselect

theorem textInput_writes (hplain : view.Plain) :
    view.type = .textInput → FieldsWrite (leafFields view) (leafValues view) := by
  intro htype
  simp only [leafFields, leafValues, htype]
  exact .cons (fieldWrites_optional hplain.customId) (.cons (fieldWrites_u32 _ _)
    (.cons (fieldWrites_optional hplain.placeholder) (.cons (fieldWrites_u32 _ _)
      (.cons (fieldWrites_u32 _ _) (.cons (fieldWrites_optional hplain.value)
        (.cons (fieldWrites_bool _ _) .nil))))))

theorem textDisplay_writes (h : stringLengthBetween view.content 1 4000 = true)
    (hplain : view.Plain) :
    view.type = .textDisplay → FieldsWrite (leafFields view) (leafValues view) := by
  intro htype
  simp only [leafFields, leafValues, htype]
  exact .cons (fieldWrites_required (text_there h Nat.one_pos) hplain.content) .nil

theorem mediaGallery_writes (h : mediaValid abi view.media 1 10 = true) (hplain : view.Plain) :
    view.type = .mediaGallery → FieldsWrite (leafFields view) (leafValues view) := by
  intro htype
  obtain ⟨hbacked, hurls⟩ := mediaValid_ok h
  simp only [leafFields, leafValues, htype]
  exact .cons (fieldWrites_some (writes_array hbacked fun medium hmedium =>
    writes_mediaItem (hurls medium hmedium) (hplain.media medium hmedium))) .nil

theorem separator_writes :
    view.type = .separator → FieldsWrite (leafFields view) (leafValues view) := by
  intro htype
  simp only [leafFields, leafValues, htype]
  exact .cons (fieldWrites_bool _ _) (.cons (fieldWrites_u32 _ _) .nil)

theorem fileUpload_writes (h : validateFileUpload view ctx = .ok ctx') (hplain : view.Plain) :
    view.type = .fileUpload → FieldsWrite (leafFields view) (leafValues view) := by
  intro htype
  obtain ⟨_, -, h⟩ := bind_ok h
  obtain ⟨_, hcount, h⟩ := bind_ok h
  obtain ⟨_, hall, h⟩ := bind_ok h
  have hcount := require_ok hcount
  have hall := List.all_eq_true.mp (require_ok hall)
  have hbacked : view.fileTypes.Backed := by
    cases hspan : view.fileTypes with
    | null count =>
      rw [hspan] at hcount
      by_cases hzero : count = 0
      · exact hzero
      · simp [Span.count, Span.isNull, hzero] at hcount
    | items address list => rfl
  have hitems : ∀ type ∈ view.fileTypes.list, Writes (escapedString type) (fileTypeValue type) := by
    intro type hmem
    cases type with
    | none => cases hall none hmem
    | some text => exact writes_string (hplain.fileTypes _ hmem text rfl)
  simp only [leafFields, leafValues, htype]
  exact .cons (fieldWrites_required (customId_there h) hplain.customId)
    (.cons (fieldWrites_u32 _ _) (.cons (fieldWrites_u32 _ _) (.cons (fieldWrites_bool _ _)
      (.cons (fieldWrites_items hbacked hitems) .nil))))

theorem radioGroup_writes (h : validateRadioGroup abi view ctx = .ok ctx') (hplain : view.Plain) :
    view.type = .radioGroup → FieldsWrite (leafFields view) (leafValues view) := by
  intro htype
  obtain ⟨ctx₁, hcustom, h⟩ := bind_ok h
  obtain ⟨_, hchoices, -⟩ := bind_ok h
  obtain ⟨hbacked, hitems⟩ := choicesValid_ok (require_ok hchoices) hplain.choiceOptions
  simp only [leafFields, leafValues, htype]
  exact .cons (fieldWrites_required (customId_there hcustom) hplain.customId)
    (.cons (fieldWrites_some (writes_array hbacked hitems)) (.cons (fieldWrites_bool _ _) .nil))

theorem checkboxGroup_writes (h : validateCheckboxGroup abi view ctx = .ok ctx')
    (hplain : view.Plain) :
    view.type = .checkboxGroup → FieldsWrite (leafFields view) (leafValues view) := by
  intro htype
  obtain ⟨ctx₁, hcustom, h⟩ := bind_ok h
  obtain ⟨_, -, h⟩ := bind_ok h
  obtain ⟨_, hchoices, -⟩ := bind_ok h
  obtain ⟨hbacked, hitems⟩ := choicesValid_ok (require_ok hchoices) hplain.choiceOptions
  simp only [leafFields, leafValues, htype]
  exact .cons (fieldWrites_required (customId_there hcustom) hplain.customId)
    (.cons (fieldWrites_some (writes_array hbacked hitems)) (.cons (fieldWrites_bool _ _)
      (.cons (fieldWrites_u32 _ _) (.cons (fieldWrites_u32 _ _) .nil))))

theorem checkbox_writes (h : validateCustomId ctx view.customId = .ok ctx') (hplain : view.Plain) :
    view.type = .checkbox → FieldsWrite (leafFields view) (leafValues view) := by
  intro htype
  simp only [leafFields, leafValues, htype]
  exact .cons (fieldWrites_required (customId_there h) hplain.customId)
    (.cons (fieldWrites_bool _ _) .nil)

end

end Dcc.Components
