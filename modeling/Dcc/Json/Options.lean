import Dcc.Json.GatewayKey

/-!
# The options of an interaction

The options of a command are arrays of objects, each with options of its own.
`dcc_json_gateway_parse_interaction_option_array` stores them in the payload, in
a pool of 16 lists of 25 slots: an array that is opened takes the next list, and
its owner, the interaction or a slot of another list, keeps a pointer to the
list, a count and a flag.

* `OptionSlot`, `OptionPool`: the slots, with the two text buffers each of them
  has, and the pool with everything the parser writes;
* `optionArrayFuel`, `optionItemsFuel`, `optionObjectFuel`, `optionMembersFuel`:
  the parser, which writes every slot in place;
* `parseEventOptions`: the `options` members of one payload, one after another.
-/

namespace Dcc.Json

open Cache.Merge (cText parseU64Ascii)

/-- `DCC_JSON_GATEWAY_INTERACTION_OPTION_CAP`. -/
def optionCap : Nat := 25

/-- `DCC_JSON_GATEWAY_INTERACTION_OPTION_LIST_CAP`. -/
def optionListCap : Nat := 16

/-- `DCC_JSON_GATEWAY_INTERACTION_OPTION_NAME_CAP`. -/
def optionNameCap : Nat := 64

/-- `DCC_JSON_GATEWAY_INTERACTION_OPTION_STRING_CAP`. -/
def optionStringCap : Nat := 256

/-- Arrays nested this deep are not opened. -/
def optionDepthCap : Nat := 4

/-- `dcc_interaction_option_value_type_t`. -/
inductive OptionValueType
  | none | string | integer | number | boolean | snowflake
  deriving DecidableEq, Repr

/-- An owner's `options`, `options_count` and `options_truncated`: the pointer is the
number of a list of the pool. -/
structure OptionList where
  list : Option Nat
  count : Nat
  truncated : Bool
  deriving DecidableEq, Repr

/-- No options. -/
def OptionList.empty : OptionList := ⟨none, 0, false⟩

/-- The fields of `dcc_interaction_option_t` other than its options, as a command reads
them. -/
structure InteractionOption (ν : Type) where
  name : Option Bytes
  type : Nat
  valueType : OptionValueType
  stringValue : Option Bytes
  integerValue : Int
  numberValue : ν
  snowflakeValue : Nat
  booleanValue : Bool
  focused : Bool
  deriving DecidableEq, Repr

/-- The same fields as the parser holds them.  The two texts are in the buffers of the
slot; `nameSet` and `stringSet` say whether the option points to them. -/
structure OptionFields (ν : Type) where
  nameBuffer : Bytes
  stringBuffer : Bytes
  nameSet : Bool
  stringSet : Bool
  type : Nat
  valueType : OptionValueType
  integerValue : Int
  numberValue : ν
  snowflakeValue : Nat
  booleanValue : Bool
  focused : Bool
  deriving DecidableEq, Repr

/-- One slot of a list: an option with its buffers. -/
structure OptionSlot (ν : Type) where
  fields : OptionFields ν
  options : OptionList
  deriving DecidableEq, Repr

/-- The part of `dcc_json_gateway_payload_t` the options are stored in.  A focused
option is named by its list and its place. -/
structure OptionPool (ν : Type) where
  listCount : Nat
  lists : Nat → Nat → OptionSlot ν
  options : OptionList
  focusedOption : Option (Nat × Nat)

/-- Whose options an array holds. -/
inductive OptionOwner
  | interaction
  | slot (list index : Nat)
  deriving DecidableEq, Repr

/-- `dcc_json_gateway_interaction_option_state_t`, without the two buffers. -/
structure OptionState where
  hasString : Bool := false
  hasBool : Bool := false
  boolValue : Bool := false
  hasNumber : Bool := false
  numberIsInteger : Bool := false
  numberValue : Bytes := []

variable {ν : Type}

/-- What a command sees of the fields: texts end at the first NUL. -/
def OptionFields.option (fields : OptionFields ν) : InteractionOption ν where
  name := if fields.nameSet then some (cText fields.nameBuffer) else none
  type := fields.type
  valueType := fields.valueType
  stringValue := if fields.stringSet then some (cText fields.stringBuffer) else none
  integerValue := fields.integerValue
  numberValue := fields.numberValue
  snowflakeValue := fields.snowflakeValue
  booleanValue := fields.booleanValue
  focused := fields.focused

/-- The fields of a zeroed option, with the buffers it is given. -/
def OptionFields.zero [Zero ν] (nameBuffer stringBuffer : Bytes) : OptionFields ν where
  nameBuffer := nameBuffer
  stringBuffer := stringBuffer
  nameSet := false
  stringSet := false
  type := 0
  valueType := .none
  integerValue := 0
  numberValue := 0
  snowflakeValue := 0
  booleanValue := false
  focused := false

/-- `memset` over an option: the buffers are elsewhere and stay. -/
def OptionSlot.cleared [Zero ν] (slot : OptionSlot ν) : OptionSlot ν :=
  ⟨.zero slot.fields.nameBuffer slot.fields.stringBuffer, .empty⟩

/-- The options of a payload that was reset. -/
def OptionPool.zero [Zero ν] : OptionPool ν :=
  ⟨0, fun _ _ => ⟨.zero [] [], .empty⟩, .empty, none⟩

namespace OptionPool

/-- A write to one slot. -/
def setSlot (pool : OptionPool ν) (list index : Nat) (slot : OptionSlot ν) : OptionPool ν :=
  { pool with
    lists := Function.update pool.lists list (Function.update (pool.lists list) index slot) }

/-- The options of an owner. -/
def view (pool : OptionPool ν) : OptionOwner → OptionList
  | .interaction => pool.options
  | .slot list index => (pool.lists list index).options

/-- A write to the options of an owner. -/
def setView (pool : OptionPool ν) (owner : OptionOwner) (options : OptionList) : OptionPool ν :=
  match owner with
  | .interaction => { pool with options := options }
  | .slot list index => pool.setSlot list index { pool.lists list index with options := options }

/-- A write to the fields of one slot. -/
def setFields (pool : OptionPool ν) (list index : Nat) (fields : OptionFields ν) : OptionPool ν :=
  pool.setSlot list index { pool.lists list index with fields := fields }

/-- `dcc_json_gateway_begin_interaction_option_array`, where a list is taken. -/
def openList [Zero ν] (pool : OptionPool ν) (owner : OptionOwner) : OptionPool ν :=
  OptionPool.setView
    { pool with
      listCount := pool.listCount + 1
      lists := Function.update pool.lists pool.listCount fun index =>
        (pool.lists pool.listCount index).cleared }
    owner ⟨some pool.listCount, 0, false⟩

/-- The first stored option with `focused` is remembered. -/
def noteFocused (pool : OptionPool ν) (list index : Nat) : OptionPool ν :=
  if (pool.lists list index).fields.focused ∧ pool.focusedOption = none then
    { pool with focusedOption := some (list, index) }
  else pool

/-- An option was stored in a slot of the owner's list. -/
def countItem (pool : OptionPool ν) (owner : OptionOwner) (list index : Nat) : OptionPool ν :=
  (pool.setView owner { pool.view owner with count := index + 1 }).noteFocused list index

/-- An element was passed over. -/
def truncate (pool : OptionPool ν) (owner : OptionOwner) : OptionPool ν :=
  pool.setView owner { pool.view owner with truncated := true }

end OptionPool

/-! ## Scalars -/

/-- One round of the loop of `dcc_json_parse_i64_ascii`. -/
def i64Digit (limit value : Nat) (c : UInt8) : Option Nat :=
  if c < 0x30 ∨ 0x39 < c then none
  else
    let digit := c.toNat - 0x30
    if (limit - digit) / 10 < value then none else some (value * 10 + digit)

/-- `dcc_json_parse_i64_ascii`. -/
def parseI64Ascii : Bytes → Option Int
  | [] => none
  | c :: p =>
    if c = chMinus then
      if p = [] then none else (p.foldlM (i64Digit (2 ^ 63)) 0).map fun value => -(value : Int)
    else ((c :: p).foldlM (i64Digit (2 ^ 63 - 1)) 0).map fun value => (value : Int)

/-- `dcc_json_gateway_parse_double_ascii` over the `strtod` of the C library, which reads a
text whole or not. -/
def parseDoubleAscii (strtod : Bytes → Option ν) (data : Bytes) : Option ν :=
  if data.length = 0 ∨ 64 ≤ data.length then none else strtod data

/-- `dcc_json_parse_u32_direct`. -/
def parseU32Direct (cur : Bytes) : Option (Nat × Bytes) :=
  (parseU64Direct cur).bind fun r => if 2 ^ 32 - 1 < r.1 then none else some r

/-- `dcc_json_parse_bool_direct`. -/
def parseBoolDirect (cur : Bytes) : Option (Bool × Bytes) :=
  match matchLiteral cur litTrue with
  | some rest => some (true, rest)
  | none => (matchLiteral cur litFalse).map fun rest => (false, rest)

/-- `dcc_json_parse_nullable_string_buffer`: no text for `null`. -/
def parseNullableStringBuffer (cur : Bytes) (outCap : Nat) : Option (Option Bytes × Bytes) :=
  match skipWs cur with
  | [] => none
  | c :: p =>
    if outCap = 0 then none
    else if c = 0x6e then (matchLiteral (c :: p) litNull).map fun rest => (none, rest)
    else (parseStringBuffer (c :: p) outCap).map fun r => (some r.1, r.2)

/-- `dcc_json_gateway_parse_number_text` into 64 bytes: the text, whether it is an integer,
and the cursor after it. -/
def parseNumberText (cur : Bytes) : Option (Bytes × Bool × Bytes) :=
  (parseNumberSpan cur).bind fun r =>
    if r.1.length = 0 ∨ 64 ≤ r.1.length then none else some r

/-- `dcc_json_gateway_interaction_option_type_is_snowflake`. -/
def optionTypeIsSnowflake (type : Nat) : Bool :=
  type == 6 || type == 7 || type == 8 || type == 9 || type == 11

/-! ## The fields of an option -/

/-- `dcc_json_gateway_parse_interaction_option_meta_field`: the fields and, where the key
was one of these, the cursor after the value. -/
def optionMetaField (key : KeyId) (cur : Bytes) (fields : OptionFields ν) :
    Option (OptionFields ν × Option Bytes) :=
  match key with
  | .name =>
    (parseNullableStringBuffer cur optionNameCap).map fun r =>
      ({ fields with nameBuffer := r.1.getD [], nameSet := r.1.isSome }, some r.2)
  | .type => (parseU32Direct cur).map fun r => ({ fields with type := r.1 }, some r.2)
  | .focused => (parseBoolDirect cur).map fun r => ({ fields with focused := r.1 }, some r.2)
  | _ => some (fields, none)

/-- `dcc_json_gateway_parse_interaction_option_value_field`, on the value of the member: the
string goes to the buffer of the slot, the rest to the state. -/
def optionValue (cur : Bytes) (fields : OptionFields ν) (state : OptionState) :
    Option ((OptionFields ν × OptionState) × Bytes) :=
  match cur with
  | [] => none
  | c :: _ =>
    if c = 0x6e then
      (matchLiteral cur litNull).map fun rest =>
        (({ fields with stringBuffer := [] }, { state with
            hasString := false, hasBool := false, hasNumber := false, numberValue := [] }), rest)
    else if c = chQuote then
      (parseStringBuffer cur optionStringCap).map fun r =>
        (({ fields with stringBuffer := r.1 },
          { state with hasString := true, hasBool := false, hasNumber := false }), r.2)
    else if c = 0x74 ∨ c = 0x66 then
      (parseBoolDirect cur).map fun r =>
        ((fields, { state with
            boolValue := r.1, hasBool := true, hasString := false, hasNumber := false }), r.2)
    else if c = chMinus ∨ isDigit c then
      (parseNumberText cur).map fun r =>
        ((fields, { state with
            numberValue := r.1, numberIsInteger := r.2.1
            hasNumber := true, hasString := false, hasBool := false }), r.2.2)
    else none

/-- The members of an option that are no options: the cursor is moved where the key is one
of them. -/
def optionScalarField (key : KeyId) (cur : Bytes) (fields : OptionFields ν) (state : OptionState) :
    Option ((OptionFields ν × OptionState) × Option Bytes) :=
  (optionMetaField key cur fields).bind fun r =>
    match r.2 with
    | some rest => some ((r.1, state), some rest)
    | none =>
      if key = .value then (optionValue cur r.1 state).map fun v => (v.1, some v.2)
      else some ((r.1, state), none)

section Finalize

variable (strtod : Bytes → Option ν)

/-- `dcc_json_gateway_finalize_interaction_option_string_value`. -/
def finalizeStringValue (fields : OptionFields ν) : Option (OptionFields ν) :=
  let text := cText fields.stringBuffer
  if optionTypeIsSnowflake fields.type then
    (parseU64Ascii text).map fun value =>
      { fields with snowflakeValue := value, stringSet := true, valueType := .snowflake }
  else if fields.type = 4 then
    (parseI64Ascii text).map fun value =>
      { fields with integerValue := value, stringSet := true, valueType := .integer }
  else if fields.type = 5 then none
  else if fields.type = 10 then
    (parseDoubleAscii strtod text).map fun value =>
      { fields with numberValue := value, stringSet := true, valueType := .number }
  else some { fields with stringSet := true, valueType := .string }

/-- `dcc_json_gateway_finalize_interaction_option_bool_value`. -/
def finalizeBoolValue (fields : OptionFields ν) (value : Bool) : Option (OptionFields ν) :=
  if fields.type ≠ 0 ∧ fields.type ≠ 5 then none
  else some { fields with booleanValue := value, valueType := .boolean }

/-- `dcc_json_gateway_finalize_interaction_option_number_value`. -/
def finalizeNumberValue (fields : OptionFields ν) (number : Bytes) (isInteger : Bool) :
    Option (OptionFields ν) :=
  let text := cText number
  if fields.type = 10 ∨ isInteger = false then
    (parseDoubleAscii strtod text).map fun value =>
      { fields with numberValue := value, valueType := .number }
  else if optionTypeIsSnowflake fields.type then
    (parseU64Ascii text).map fun value =>
      { fields with snowflakeValue := value, valueType := .snowflake }
  else if fields.type = 5 then none
  else
    (parseI64Ascii text).map fun value =>
      { fields with integerValue := value, valueType := .integer }

/-- `dcc_json_gateway_finalize_interaction_option_value`. -/
def finalizeOption (fields : OptionFields ν) (state : OptionState) : Option (OptionFields ν) :=
  if state.hasString then finalizeStringValue strtod fields
  else if state.hasBool then finalizeBoolValue fields state.boolValue
  else if state.hasNumber then
    finalizeNumberValue strtod fields state.numberValue state.numberIsInteger
  else some { fields with valueType := .none }

end Finalize

/-! ## Arrays and objects -/

/-- What follows an element: the closing byte, or a comma.  Whether there is another
element, and the cursor. -/
def afterElement (close : UInt8) (cur : Bytes) : Option (Bool × Bytes) :=
  match skipWs cur with
  | [] => none
  | d :: q =>
    if d = close then some (false, q)
    else if d ≠ chComma then none
    else some (true, skipWs q)

/-- `dcc_json_gateway_parse_interaction_option_field`, over the function that reads the
option's own options. -/
def optionField (child : Bytes → OptionPool ν → Option (OptionPool ν × Bytes))
    (list index : Nat) (key : KeyId) (cur : Bytes) (state : OptionState) (pool : OptionPool ν) :
    Option ((OptionPool ν × OptionState) × Bytes) :=
  (optionScalarField key cur (pool.lists list index).fields state).bind fun r =>
    match r.2 with
    | some rest => some ((pool.setFields list index r.1.1, r.1.2), rest)
    | none =>
      if key = .options then (child cur pool).map fun c => ((c.1, state), c.2)
      else (skipValue cur).map fun rest => ((pool, state), rest)

/-- `dcc_json_gateway_parse_interaction_option_array_item`, over the function that reads an
object. -/
def optionItem (object : Bytes → OptionPool ν → Option (OptionPool ν × Bytes))
    (owner : OptionOwner) (list index : Nat) (cur : Bytes) (pool : OptionPool ν) :
    Option (OptionPool ν × Bytes) :=
  if optionCap ≤ index then (skipValue cur).map fun rest => (pool.truncate owner, rest)
  else (object cur pool).map fun r => (r.1.countItem owner list index, r.2)

section Parse

variable (strtod : Bytes → Option ν)

/-- What follows a member of an option: the `next` one, or the end of the object, where
`dcc_json_gateway_finalize_interaction_option_state` reads the value by its type. -/
def optionAfterMember (next : Bytes → Option (OptionPool ν × Bytes)) (list index : Nat)
    (state : OptionState) (cur : Bytes) (pool : OptionPool ν) : Option (OptionPool ν × Bytes) :=
  (afterElement chRBrace cur).bind fun e =>
    if e.1 then next e.2
    else
      (finalizeOption strtod (pool.lists list index).fields state).map fun fields =>
        (pool.setFields list index fields, e.2)

variable [Zero ν]

mutual

/-- `dcc_json_gateway_parse_interaction_option_array`. -/
def optionArrayFuel : Nat → OptionOwner → Nat → Bytes → OptionPool ν → Option (OptionPool ν × Bytes)
  | 0, _, _, _, _ => none
  | fuel + 1, owner, depth, cur, pool =>
    match skipWs cur with
    | [] => none
    | c :: p =>
      if c ≠ chLBracket then
        (skipValue (c :: p)).map fun rest => (pool.setView owner .empty, rest)
      else if optionDepthCap ≤ depth ∨ optionListCap ≤ pool.listCount then
        (skipValue (c :: p)).map fun rest => (pool.setView owner ⟨none, 0, true⟩, rest)
      else if (skipWs p).head? = some chRBracket then
        some (pool.openList owner, (skipWs p).drop 1)
      else
        optionItemsFuel fuel owner pool.listCount depth 0 (skipWs p) (pool.openList owner)

/-- The loop of `dcc_json_gateway_parse_interaction_option_array_loop`. -/
def optionItemsFuel : Nat → OptionOwner → Nat → Nat → Nat → Bytes → OptionPool ν →
    Option (OptionPool ν × Bytes)
  | 0, _, _, _, _, _, _ => none
  | fuel + 1, owner, list, depth, index, cur, pool =>
    (optionItem (optionObjectFuel fuel list index depth) owner list index cur pool).bind fun r =>
      (afterElement chRBracket r.2).bind fun e =>
        if e.1 then optionItemsFuel fuel owner list depth (index + 1) e.2 r.1
        else some (r.1, e.2)

/-- `dcc_json_gateway_parse_interaction_option_object`. -/
def optionObjectFuel : Nat → Nat → Nat → Nat → Bytes → OptionPool ν → Option (OptionPool ν × Bytes)
  | 0, _, _, _, _, _ => none
  | fuel + 1, list, index, depth, cur, pool =>
    match skipWs cur with
    | [] => none
    | c :: p =>
      if c ≠ chLBrace then (skipValue (c :: p)).map fun rest => (pool, rest)
      else if (skipWs p).head? = some chRBrace then
        (finalizeOption strtod (.zero [] []) {}).map fun fields =>
          (pool.setSlot list index ⟨fields, .empty⟩, (skipWs p).drop 1)
      else
        optionMembersFuel fuel list index depth {} (skipWs p)
          (pool.setSlot list index ⟨.zero [] [], .empty⟩)

/-- The loop of `dcc_json_gateway_parse_interaction_option_object_fields`. -/
def optionMembersFuel : Nat → Nat → Nat → Nat → OptionState → Bytes → OptionPool ν →
    Option (OptionPool ν × Bytes)
  | 0, _, _, _, _, _, _ => none
  | fuel + 1, list, index, depth, state, cur, pool =>
    (parseGatewayKey cur).bind fun key =>
      (afterColon key.2).bind fun p =>
        (optionField (optionArrayFuel fuel (.slot list index) (depth + 1)) list index key.1 p state
          pool).bind fun r =>
          optionAfterMember strtod
            (fun cur => optionMembersFuel fuel list index depth r.1.2 cur r.1.1)
            list index r.1.2 r.2 r.1.1

end

/-- `dcc_json_gateway_parse_interaction_options`. -/
def parseInteractionOptions (fuel : Nat) (cur : Bytes) (pool : OptionPool ν) :
    Option (OptionPool ν × Bytes) :=
  optionArrayFuel strtod fuel .interaction 0 cur { pool with focusedOption := none }

/-- The `options` members a payload has, in their order: nothing else writes the pool. -/
def parseEventOptions (fuel : Nat) : List Bytes → OptionPool ν → Option (OptionPool ν)
  | [], pool => some pool
  | cur :: curs, pool =>
    (parseInteractionOptions strtod fuel cur pool).bind fun r => parseEventOptions fuel curs r.1

end Parse

end Dcc.Json
