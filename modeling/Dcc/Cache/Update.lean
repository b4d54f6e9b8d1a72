import Dcc.Basic
import Mathlib.Logic.Function.Basic

/-!
# Reading a partial Gateway update and merging it into the cached entity

An update event carries only some of an entity's keys.  The reader of `d` goes
through the members of the object, stores each value it knows in the entity of
the event and marks one or more presence bits; the merge view then takes every
field from the new record or from the cached one.

A field is named by its JSON key, and a nested record by the keys of its
members, so the record of an entity is a function from keys to values.  Three
tables say what the source spreads over its handlers:

* `Key.reader`: which token function reads the value of a key;
* `Key.marks`: the presence bits the handler of a key sets;
* `Event.guard`: the presence bit the merge view tests for a field.
-/

namespace Dcc.Cache.Merge

/-! ## Keys -/

/-- The keys of a user object; `publicFlags` is stored in `flags`. -/
inductive UserKey
  | id
  | username
  | globalName
  | discriminator
  | bot
  | flags
  | publicFlags
  | avatar
  deriving DecidableEq, Repr

/-- The keys of a role object. -/
inductive RoleKey
  | id
  | name
  | permissions
  | color
  | position
  | hoist
  | managed
  | mentionable
  deriving DecidableEq, Repr

/-- The ids a guild refers to. -/
inductive GuildRef
  | ownerId
  | applicationId
  | afkChannelId
  | systemChannelId
  | rulesChannelId
  | publicUpdatesChannelId
  | widgetChannelId
  | safetyAlertsChannelId
  deriving DecidableEq, Repr

/-- The texts that only a guild has. -/
inductive GuildText
  | icon
  | banner
  | vanityUrlCode
  | preferredLocale
  | splash
  | discoverySplash
  deriving DecidableEq, Repr

/-- `dcc_json_gateway_is_capacity_limit_key` and
`dcc_json_gateway_is_policy_limit_key`. -/
inductive Limit
  | afkTimeout
  | maxPresences
  | maxMembers
  | premiumSubscriptionCount
  | maxVideoChannelUsers
  | defaultMessageNotifications
  | premiumTier
  | verificationLevel
  | explicitContentFilter
  | mfaLevel
  | nsfwLevel
  deriving DecidableEq, Repr

/-- The arrays of objects of a guild, its roles apart. -/
inductive Collection
  | channels
  | threads
  | guildScheduledEvents
  | stageInstances
  | presences
  | emojis
  | stickers
  | soundboardSounds
  deriving DecidableEq, Repr

/-- The keys of `dcc_json_gateway_parse_d_voice_flag_key`. -/
inductive VoiceFlag
  | deaf
  | mute
  | selfDeaf
  | selfMute
  | selfStream
  | selfVideo
  | suppress
  deriving DecidableEq, Repr

/-- The keys of `d` that a cached entity has a field for.  `authorValue` is the
key `author` with a value that is not an object. -/
inductive Key
  | id
  | guildId
  | channelId
  | userId
  | name
  | description
  | flags
  | publicFlags
  | roles
  | avatar
  | guildRef (k : GuildRef)
  | guildText (k : GuildText)
  | limit (k : Limit)
  | collection (k : Collection)
  | memberCount
  | unavailable
  | large
  | widgetEnabled
  | premiumProgressBarEnabled
  | parentId
  | lastMessageId
  | type
  | position
  | rateLimitPerUser
  | bitrate
  | userLimit
  | nsfw
  | topic
  | role (k : RoleKey)
  | user (k : UserKey)
  | nick
  | joinedAt
  | premiumSince
  | communicationDisabledUntil
  | pending
  | username
  | globalName
  | discriminator
  | bot
  | author (k : UserKey)
  | authorValue
  | content
  | timestamp
  | editedTimestamp
  | components
  | webhookId
  | tts
  | mentionEveryone
  | pinned
  | sessionId
  | requestToSpeakTimestamp
  | voiceFlag (k : VoiceFlag)
  deriving DecidableEq, Repr

/-- The events whose entity is merged, one for each merge view and its source
in the payload. -/
inductive Event
  | guildUpdate
  | channelUpdate
  | roleUpdate
  | memberUpdate
  | userUpdate
  | presenceUpdate
  | messageUpdate
  | voiceStateUpdate
  deriving DecidableEq, Repr

/-- The `DCC_CACHE_FIELD_*` bits that a merge view tests. -/
inductive Presence
  | messageContent
  | messageFlags
  | messageType
  | messageTts
  | messageMentionEveryone
  | messagePinned
  | messageWebhookId
  | messageTimestamp
  | messageEditedTimestamp
  | messageComponents
  | guildFlags
  | guildMemberCount
  | guildLimits
  | guildUnavailable
  | guildLarge
  | guildWidgetEnabled
  | guildPremiumProgressBarEnabled
  | guildCollections
  | channelParentId
  | channelLastMessageId
  | channelType
  | channelPosition
  | channelRateLimitPerUser
  | channelBitrate
  | channelUserLimit
  | channelNsfw
  | channelName
  | channelTopic
  | rolePermissions
  | roleColor
  | rolePosition
  | roleHoist
  | roleManaged
  | roleMentionable
  | roleName
  | memberRoles
  | memberFlags
  | memberPending
  | userProfile
  | userBot
  | userFlags
  | voiceChannelId
  | voiceFlags
  deriving DecidableEq, Repr

/-! ## JSON values and field values -/

/-- An item of a JSON array. -/
inductive Item
  | number (n : Nat)
  | text (s : Bytes)
  | object (spelling : Bytes)
  | other (spelling : Bytes)
  deriving DecidableEq, Repr

/-- The value of a key: texts are decoded, `spelled` is a value kept as it is
written (`components`), and `other` is any value no reader of the cache takes. -/
inductive Raw
  | null
  | bool (b : Bool)
  | number (n : Nat)
  | text (s : Bytes)
  | array (items : List Item)
  | spelled (json : Bytes)
  | other
  deriving DecidableEq, Repr

/-- What a field holds: a number (flags are `0` and `1`), a C string or `NULL`,
an array or `NULL` with its truncation flag, or `components_json` with its own. -/
inductive Value
  | number (n : Nat)
  | text (s : Option Bytes)
  | list (items : Option (List Item)) (truncated : Bool)
  | spelling (json : Option Bytes) (truncated : Bool)
  deriving DecidableEq, Repr

/-- What a field holds for its readers: no array is the empty array. -/
def Value.content : Value → Value
  | .list none truncated => .list (some []) truncated
  | v => v

/-- `UINT16_MAX`. -/
def u16Max : Nat := 2 ^ 16 - 1

/-- `UINT32_MAX`. -/
def u32Max : Nat := 2 ^ 32 - 1

/-- `DCC_JSON_GATEWAY_ID_LIST_CAP`. -/
def idListCap : Nat := 128

/-- `DCC_JSON_GATEWAY_OBJECT_LIST_CAP`. -/
def objectListCap : Nat := 32

/-- The size of `message_components_json`. -/
def componentsCap : Nat := 65536

/-! ## Token functions -/

/-- One round of the loop of `dcc_json_parse_u64_ascii`. -/
def u64Digit (value : Nat) (c : UInt8) : Option Nat :=
  if c < 0x30 ∨ 0x39 < c then none
  else
    let digit := c.toNat - 0x30
    if (wordMax - digit) / 10 < value then none else some (value * 10 + digit)

/-- `dcc_json_parse_u64_ascii`. -/
def parseU64Ascii (data : Bytes) : Option Nat :=
  if data = [] then none else data.foldlM u64Digit 0

/-- A decoded text as its readers see it: it ends at the first NUL. -/
def cText (s : Bytes) : Bytes := s.takeWhile (· ≠ 0)

/-- `dcc_json_parse_u64_token` on a string: it is decoded into 32 bytes. -/
def u64Text (s : Bytes) : Option Nat := if s.length < 32 then parseU64Ascii (cText s) else none

/-- `dcc_json_parse_u64_direct`. -/
def u64Direct (n : Nat) : Option Nat := if n ≤ wordMax then some n else none

/-- `dcc_json_parse_u64_token`. -/
def u64Token : Raw → Option Nat
  | .number n => u64Direct n
  | .text s => u64Text s
  | _ => none

/-- An item of `dcc_json_parse_snowflake_array`. -/
def snowflake : Item → Option Nat
  | .number n => u64Direct n
  | .text s => u64Text s
  | _ => none

def Item.isObject : Item → Bool
  | .object _ => true
  | _ => false

/-- `dcc_json_array_first_value_is_object`. -/
def firstIsObject (items : List Item) : Bool := items.head?.any Item.isObject

/-- `dcc_json_parse_snowflake_array`: ids past the capacity are dropped. -/
def snowflakeArray (items : List Item) : Option Value :=
  (items.mapM snowflake).map fun ids =>
    .list (some ((ids.take idListCap).map .number)) (decide (idListCap < ids.length))

/-- The loops over the arrays of objects: an item that is not an object, or
that is past the capacity, is skipped and sets the truncation flag. -/
def objectArray (items : List Item) : Value :=
  .list (some ((items.filter Item.isObject).take objectListCap))
    (items.any (fun i => !i.isObject) ||
      decide (objectListCap < (items.filter Item.isObject).length))

/-- The copy of `dcc_json_gateway_parse_d_core_message_components_key`. -/
def copyComponents (json : Bytes) : Value :=
  if componentsCap ≤ json.length then .spelling (some (json.take (componentsCap - 1))) true
  else .spelling (some json) false

/-- How the handler of a key reads its value. -/
inductive Reader
  | idToken
  | nullableId
  | shortToken
  | wideNumber
  | number
  | nullableNumber
  | bool
  | string (cap : Nat)
  | nullableString (cap : Nat)
  | typeTag
  | timestamp
  | roleList
  | objectList
  | components
  | skip
  deriving DecidableEq, Repr

/-- `dcc_json_parse_string_buffer`. -/
def stringBuffer (cap : Nat) (s : Bytes) : Option Value :=
  if s.length < cap then some (.text (some (cText s))) else none

/-- `dcc_json_parse_nullable_string_buffer`. -/
def nullableStringBuffer (cap : Nat) : Raw → Option Value
  | .null => some (.text none)
  | .text s => stringBuffer cap s
  | _ => none

/-- `dcc_json_parse_nullable_u64_token`. -/
def nullableU64 : Raw → Option Nat
  | .null => some 0
  | raw => u64Token raw

/-- The value a handler stores, or nothing where the handler refuses. -/
def Reader.read : Reader → Raw → Option Value
  | .idToken, raw => (u64Token raw).map .number
  | .nullableId, raw => (nullableU64 raw).map .number
  | .shortToken, raw => ((u64Token raw).filter (· ≤ u16Max)).map .number
  | .wideNumber, .number n => (u64Direct n).map .number
  | .number, .number n => ((u64Direct n).filter (· ≤ u32Max)).map .number
  | .nullableNumber, raw => ((nullableU64 raw).filter (· ≤ u32Max)).map .number
  | .bool, .bool b => some (.number b.toNat)
  | .string cap, .text s => stringBuffer cap s
  | .nullableString cap, raw => nullableStringBuffer cap raw
  -- a text `type` is kept as `type_text`, and a number `timestamp` as `gateway.timestamp`
  | .typeTag, .number n => ((u64Direct n).filter (· ≤ u32Max)).map .number
  | .typeTag, raw => nullableStringBuffer 128 raw
  | .timestamp, .number n => (u64Direct n).map .number
  | .timestamp, raw => nullableStringBuffer 64 raw
  | .roleList, .array items =>
    if firstIsObject items then some (objectArray items) else snowflakeArray items
  | .objectList, .array items => some (objectArray items)
  | .components, .spelled json => some (copyComponents json)
  | .skip, _ => some (.number 0)
  | _, _ => none

/-- `dcc_json_gateway_parse_user_object_value`. -/
def UserKey.reader : UserKey → Reader
  | .id => .idToken
  | .username => .nullableString 128
  | .globalName => .nullableString 128
  | .discriminator => .shortToken
  | .bot => .bool
  | .flags => .number
  | .publicFlags => .number
  | .avatar => .nullableString 128

/-- `dcc_json_gateway_parse_role_field`. -/
def RoleKey.reader : RoleKey → Reader
  | .id => .idToken
  | .name => .nullableString 128
  | .permissions => .nullableId
  | .color => .number
  | .position => .number
  | .hoist => .bool
  | .managed => .bool
  | .mentionable => .bool

/-- The handlers of `dcc_json_gateway_parse_d`. -/
def Key.reader : Key → Reader
  | .id => .idToken
  | .guildId => .nullableId
  | .channelId => .nullableId
  | .userId => .nullableId
  | .name => .nullableString 128
  | .description => .nullableString 1024
  | .flags => .wideNumber
  | .publicFlags => .number
  | .roles => .roleList
  | .avatar => .nullableString 128
  | .guildRef _ => .nullableId
  | .guildText .preferredLocale => .nullableString 32
  | .guildText _ => .nullableString 128
  | .limit _ => .nullableNumber
  | .collection _ => .objectList
  | .memberCount => .number
  | .unavailable => .bool
  | .large => .bool
  | .widgetEnabled => .bool
  | .premiumProgressBarEnabled => .bool
  | .parentId => .nullableId
  | .lastMessageId => .nullableId
  | .type => .typeTag
  | .position => .number
  | .rateLimitPerUser => .number
  | .bitrate => .number
  | .userLimit => .number
  | .nsfw => .bool
  | .topic => .nullableString 1024
  | .role k => k.reader
  | .user k => k.reader
  | .nick => .nullableString 128
  | .joinedAt => .nullableString 64
  | .premiumSince => .nullableString 64
  | .communicationDisabledUntil => .nullableString 64
  | .pending => .bool
  | .username => .nullableString 128
  | .globalName => .nullableString 128
  | .discriminator => .shortToken
  | .bot => .bool
  | .author k => k.reader
  | .authorValue => .skip
  | .content => .nullableString 8192
  | .timestamp => .timestamp
  | .editedTimestamp => .nullableString 64
  | .components => .components
  | .webhookId => .nullableId
  | .tts => .bool
  | .mentionEveryone => .bool
  | .pinned => .bool
  | .sessionId => .string 256
  | .requestToSpeakTimestamp => .nullableString 64
  | .voiceFlag _ => .bool

/-- The bits of a role object's handlers. -/
def RoleKey.marks : RoleKey → List Presence
  | .id => []
  | .name => [.roleName]
  | .permissions => [.rolePermissions]
  | .color => [.roleColor]
  | .position => [.rolePosition]
  | .hoist => [.roleHoist]
  | .managed => [.roleManaged]
  | .mentionable => [.roleMentionable]

/-- The bits `author` sets, whatever its value is. -/
def authorMarks : List Presence := [.userProfile, .userBot, .userFlags]

/-- The bits the handler of a key sets for a value it has read. -/
def Key.marks : Key → Raw → List Presence
  | .channelId, _ => [.voiceChannelId]
  | .name, _ => [.channelName]
  | .flags, _ => [.messageFlags, .guildFlags, .memberFlags, .userFlags]
  | .publicFlags, _ => [.userFlags]
  | .roles, .array items => if firstIsObject items then [] else [.memberRoles]
  | .limit _, _ => [.guildLimits]
  | .memberCount, _ => [.guildMemberCount]
  | .unavailable, _ => [.guildUnavailable]
  | .large, _ => [.guildLarge]
  | .widgetEnabled, _ => [.guildWidgetEnabled]
  | .premiumProgressBarEnabled, _ => [.guildPremiumProgressBarEnabled]
  | .parentId, _ => [.channelParentId]
  | .lastMessageId, _ => [.channelLastMessageId]
  | .type, .number _ => [.messageType, .channelType]
  | .position, _ => [.channelPosition, .rolePosition]
  | .rateLimitPerUser, _ => [.channelRateLimitPerUser]
  | .bitrate, _ => [.channelBitrate]
  | .userLimit, _ => [.channelUserLimit]
  | .nsfw, _ => [.channelNsfw]
  | .topic, _ => [.channelTopic]
  | .role k, _ => k.marks
  | .pending, _ => [.memberPending]
  | .bot, _ => [.userBot]
  | .author _, _ => authorMarks
  | .authorValue, _ => authorMarks
  | .content, _ => [.messageContent]
  | .timestamp, .null => [.messageTimestamp]
  | .timestamp, .text _ => [.messageTimestamp]
  | .editedTimestamp, _ => [.messageEditedTimestamp]
  | .components, _ => [.messageComponents]
  | .webhookId, _ => [.messageWebhookId]
  | .tts, _ => [.messageTts]
  | .mentionEveryone, _ => [.messageMentionEveryone]
  | .pinned, _ => [.messagePinned]
  | .voiceFlag _, _ => [.voiceFlags]
  | _, _ => []

/-! ## Fields -/

/-- The field a key is stored in. -/
def Key.field : Key → Key
  | .publicFlags => .flags
  | .user .publicFlags => .user .flags
  | .author .publicFlags => .author .flags
  | k => k

/-- The kinds of values. -/
inductive Shape
  | number
  | text
  | list
  | spelling
  deriving DecidableEq, Repr

def UserKey.shape : UserKey → Shape
  | .username => .text
  | .globalName => .text
  | .avatar => .text
  | _ => .number

/-- The type of a field of the entity structures. -/
def Key.shape : Key → Shape
  | .name => .text
  | .description => .text
  | .avatar => .text
  | .guildText _ => .text
  | .topic => .text
  | .role .name => .text
  | .nick => .text
  | .joinedAt => .text
  | .premiumSince => .text
  | .communicationDisabledUntil => .text
  | .username => .text
  | .globalName => .text
  | .content => .text
  | .timestamp => .text
  | .editedTimestamp => .text
  | .sessionId => .text
  | .requestToSpeakTimestamp => .text
  | .user k => k.shape
  | .author k => k.shape
  | .roles => .list
  | .collection _ => .list
  | .components => .spelling
  | _ => .number

/-- Zeroed memory, the start of every record. -/
def Shape.blank : Shape → Value
  | .number => .number 0
  | .text => .text none
  | .list => .list none false
  | .spelling => .spelling none false

/-- The value of a field nobody has written. -/
def Key.blank (f : Key) : Value := f.shape.blank

/-- The keys of the entity of an event. -/
def Event.owns : Event → Key → Bool
  | .guildUpdate, .id => true
  | .guildUpdate, .guildRef _ => true
  | .guildUpdate, .name => true
  | .guildUpdate, .description => true
  | .guildUpdate, .guildText _ => true
  | .guildUpdate, .roles => true
  | .guildUpdate, .collection _ => true
  | .guildUpdate, .memberCount => true
  | .guildUpdate, .limit _ => true
  | .guildUpdate, .flags => true
  | .guildUpdate, .unavailable => true
  | .guildUpdate, .large => true
  | .guildUpdate, .widgetEnabled => true
  | .guildUpdate, .premiumProgressBarEnabled => true
  | .channelUpdate, .id => true
  | .channelUpdate, .guildId => true
  | .channelUpdate, .parentId => true
  | .channelUpdate, .lastMessageId => true
  | .channelUpdate, .type => true
  | .channelUpdate, .position => true
  | .channelUpdate, .rateLimitPerUser => true
  | .channelUpdate, .bitrate => true
  | .channelUpdate, .userLimit => true
  | .channelUpdate, .nsfw => true
  | .channelUpdate, .name => true
  | .channelUpdate, .description => true
  | .channelUpdate, .topic => true
  | .roleUpdate, .guildId => true
  | .roleUpdate, .role _ => true
  | .memberUpdate, .guildId => true
  | .memberUpdate, .user _ => true
  | .memberUpdate, .roles => true
  | .memberUpdate, .flags => true
  | .memberUpdate, .pending => true
  | .memberUpdate, .nick => true
  | .memberUpdate, .avatar => true
  | .memberUpdate, .joinedAt => true
  | .memberUpdate, .premiumSince => true
  | .memberUpdate, .communicationDisabledUntil => true
  | .userUpdate, .id => true
  | .userUpdate, .username => true
  | .userUpdate, .globalName => true
  | .userUpdate, .discriminator => true
  | .userUpdate, .bot => true
  | .userUpdate, .flags => true
  | .userUpdate, .publicFlags => true
  | .userUpdate, .avatar => true
  | .presenceUpdate, .user _ => true
  | .messageUpdate, .id => true
  | .messageUpdate, .channelId => true
  | .messageUpdate, .guildId => true
  | .messageUpdate, .author _ => true
  | .messageUpdate, .authorValue => true
  | .messageUpdate, .content => true
  | .messageUpdate, .flags => true
  | .messageUpdate, .timestamp => true
  | .messageUpdate, .editedTimestamp => true
  | .messageUpdate, .components => true
  | .messageUpdate, .webhookId => true
  | .messageUpdate, .type => true
  | .messageUpdate, .tts => true
  | .messageUpdate, .mentionEveryone => true
  | .messageUpdate, .pinned => true
  | .voiceStateUpdate, .guildId => true
  | .voiceStateUpdate, .channelId => true
  | .voiceStateUpdate, .userId => true
  | .voiceStateUpdate, .sessionId => true
  | .voiceStateUpdate, .requestToSpeakTimestamp => true
  | .voiceStateUpdate, .voiceFlag _ => true
  | _, _ => false

/-- Whether the value of a key lands in the entity of the event: a text `type`
and a number `timestamp` are kept elsewhere, an array of `roles` goes to the
guild or to the member by its first item, the flags of a user have 32 bits, and
no handler writes the description of a channel. -/
def Event.takes (e : Event) : Key → Raw → Bool
  | .type, .number _ => true
  | .type, _ => false
  | .timestamp, .number _ => false
  | .roles, .array items => firstIsObject items == (e == .guildUpdate)
  | .flags, .number n => e != .userUpdate || decide (n ≤ u32Max)
  | .description, _ => e == .guildUpdate
  | .authorValue, _ => false
  | _, _ => true

/-- The fields that two keys write: `user->flags |= value`. -/
def Event.joins : Event → Key → Bool
  | .userUpdate, .flags => true
  | _, .user .flags => true
  | _, .author .flags => true
  | _, _ => false

/-! ## The reader of `d` -/

/-- The record of an entity. -/
abbrev Record := Key → Value

/-- The part of `dcc_json_gateway_payload_t` that the cache uses: the entity of
the event and `cache_fields`. -/
structure Parsed where
  record : Record
  fields : List Presence

def Parsed.empty : Parsed := ⟨Key.blank, []⟩

/-- `|=` on a numeric field. -/
def joinFlags : Value → Value → Value
  | .number a, .number b => .number (a ||| b)
  | _, v => v

/-- The value of a field after a handler has stored `v` over `old`. -/
def Event.put (e : Event) (f : Key) (old v : Value) : Value :=
  if e.joins f then joinFlags old v else v

/-- One member of `d`, read by the handler of its key. -/
def Event.readMember (e : Event) (s : Parsed) (m : Key × Raw) : Option Parsed :=
  (m.1.reader.read m.2).map fun v =>
    { record :=
        if e.takes m.1 m.2 then
          Function.update s.record m.1.field (e.put m.1.field (s.record m.1.field) v)
        else s.record
      fields := m.1.marks m.2 ++ s.fields }

/-- `dcc_json_gateway_parse_d` on the members of the object. -/
def Event.parse (e : Event) (members : List (Key × Raw)) : Option Parsed :=
  members.foldlM e.readMember Parsed.empty

/-! ## The merge views -/

/-- `dcc_cache_merge_user_view`. -/
def userGuard : UserKey → Option Presence
  | .id => none
  | .username => some .userProfile
  | .globalName => some .userProfile
  | .discriminator => some .userProfile
  | .bot => some .userBot
  | .flags => some .userFlags
  | .publicFlags => none
  | .avatar => some .userProfile

/-- `dcc_cache_merge_guild_view` with its five parts. -/
def guildGuard : Key → Option Presence
  | .roles => some .guildCollections
  | .collection _ => some .guildCollections
  | .memberCount => some .guildMemberCount
  | .limit _ => some .guildLimits
  | .flags => some .guildFlags
  | .unavailable => some .guildUnavailable
  | .large => some .guildLarge
  | .widgetEnabled => some .guildWidgetEnabled
  | .premiumProgressBarEnabled => some .guildPremiumProgressBarEnabled
  | _ => none

/-- `dcc_cache_merge_channel_view`. -/
def channelGuard : Key → Option Presence
  | .parentId => some .channelParentId
  | .lastMessageId => some .channelLastMessageId
  | .type => some .channelType
  | .position => some .channelPosition
  | .rateLimitPerUser => some .channelRateLimitPerUser
  | .bitrate => some .channelBitrate
  | .userLimit => some .channelUserLimit
  | .nsfw => some .channelNsfw
  | .name => some .channelName
  | .topic => some .channelTopic
  | _ => none

/-- `dcc_cache_merge_role_view`. -/
def roleGuard : Key → Option Presence
  | .role .permissions => some .rolePermissions
  | .role .color => some .roleColor
  | .role .position => some .rolePosition
  | .role .hoist => some .roleHoist
  | .role .managed => some .roleManaged
  | .role .mentionable => some .roleMentionable
  | .role .name => some .roleName
  | _ => none

/-- `dcc_cache_merge_member_view`. -/
def memberGuard : Key → Option Presence
  | .user k => userGuard k
  | .roles => some .memberRoles
  | .flags => some .memberFlags
  | .pending => some .memberPending
  | _ => none

/-- `dcc_cache_merge_message_view`. -/
def messageGuard : Key → Option Presence
  | .author k => userGuard k
  | .content => some .messageContent
  | .flags => some .messageFlags
  | .timestamp => some .messageTimestamp
  | .editedTimestamp => some .messageEditedTimestamp
  | .components => some .messageComponents
  | .webhookId => some .messageWebhookId
  | .type => some .messageType
  | .tts => some .messageTts
  | .mentionEveryone => some .messageMentionEveryone
  | .pinned => some .messagePinned
  | _ => none

/-- `dcc_cache_merge_voice_state_view`. -/
def voiceStateGuard : Key → Option Presence
  | .channelId => some .voiceChannelId
  | .voiceFlag _ => some .voiceFlags
  | _ => none

/-- The presence bit that stops a merge view from keeping the cached field. -/
def Event.guard : Event → Key → Option Presence
  | .guildUpdate, f => guildGuard f
  | .channelUpdate, f => channelGuard f
  | .roleUpdate, f => roleGuard f
  | .memberUpdate, f => memberGuard f
  | .userUpdate, .username => userGuard .username
  | .userUpdate, .globalName => userGuard .globalName
  | .userUpdate, .discriminator => userGuard .discriminator
  | .userUpdate, .bot => userGuard .bot
  | .userUpdate, .flags => userGuard .flags
  | .userUpdate, .avatar => userGuard .avatar
  | .userUpdate, _ => none
  | .presenceUpdate, .user k => userGuard k
  | .presenceUpdate, _ => none
  | .messageUpdate, f => messageGuard f
  | .voiceStateUpdate, f => voiceStateGuard f

/-- The id of the nested user a field belongs to. -/
def Event.owner : Event → Key → Option Key
  | .memberUpdate, .user _ => some (.user .id)
  | .messageUpdate, .author _ => some (.author .id)
  | _, _ => none

/-- One `if` of a merge view: the cached value is kept when the bit is not set
and the new value is zero or `NULL`. -/
def Event.keep (e : Event) (fields : List Presence) (f : Key) (merged existing : Value) : Value :=
  if (∀ b ∈ e.guard f, b ∉ fields) ∧ merged = f.blank then existing else merged

/-- The merge view of the event's entity.  A nested user is merged when it is
the cached one, kept when the update has none, and replaced otherwise. -/
def Event.mergeView (e : Event) (merged existing : Record) (fields : List Presence) : Record :=
  fun f =>
    match e.owner f with
    | none => e.keep fields f (merged f) (existing f)
    | some i =>
      if merged i = i.blank then existing f
      else if merged i = existing i then e.keep fields f (merged f) (existing f)
      else merged f

/-- The fields the entity is filed under in its table. -/
def Event.keys : Event → List Key
  | .guildUpdate => [.id]
  | .channelUpdate => [.id]
  | .roleUpdate => [.guildId, .role .id]
  | .memberUpdate => [.guildId, .user .id]
  | .userUpdate => [.id]
  | .presenceUpdate => [.user .id]
  | .messageUpdate => [.id]
  | .voiceStateUpdate => [.guildId, .userId]

/-- The members of an update for one entity.  Its keys are the entity's own and
stand once each, and `author` is an object or it is not. -/
structure Payload (e : Event) where
  members : List (Key × Raw)
  distinct : (members.map Prod.fst).Nodup
  own : ∀ m ∈ members, e.owns m.1
  author : .authorValue ∈ members.map Prod.fst → ∀ k, Key.author k ∉ members.map Prod.fst

/-- `dcc_cache_merge_*` after `dcc_json_gateway_parse_d`: a record whose keys
are zero is refused, and `existing` is the entity filed under the others. -/
def Event.update (e : Event) (p : Payload e) (existing : Record) : Option Record :=
  (e.parse p.members).bind fun s =>
    if ∀ f ∈ e.keys, s.record f ≠ f.blank ∧ s.record f = existing f then
      some (e.mergeView s.record existing s.fields)
    else none

end Dcc.Cache.Merge
