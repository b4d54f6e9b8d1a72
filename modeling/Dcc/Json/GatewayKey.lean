import Dcc.Json.Skip
import Dcc.Json.Snowflake

/-!
# The keys of a gateway payload

`dcc_json_parse_gateway_key` reads a member key and names its field: a key
without escapes is looked up where it stands, a key with escapes is decoded
into 64 bytes first and looked up as a C string.

* `IsField`: the name of a field, as the tables of `dcc_json_gateway_key_id`
  list it, byte for byte;
* `isField_of_known`: a key the tables know is the name of the field they give;
* `parseGatewayKey_spelling`: what the parser makes of any spelling of a key;
* `gateway_key_law`: two spellings of a key are recognised alike, by the whole
  content, and passed over where no field has the name, exactly where neither
  is an escaped spelling too long for the buffer or with a field's name in
  front of a NUL.
-/

namespace Dcc.Json

open Grammar
open Cache.Merge (cText)

/-! ## The fields and their names -/

/-- `dcc_json_key_id_t`. -/
inductive KeyId
  | unknown | op | s | t | d | heartbeatInterval | sessionId | resumeGatewayUrl | id | channelId
  | guildId | content | tts | mentionEveryone | pinned | webhookId | editedTimestamp | flags
  | publicFlags | author | username | globalName | discriminator | bot | name | unavailable | large
  | memberCount | applicationId | type | token | user | role | action | inviter | data | component
  | components | accessory | items | media | file | style | customId | componentType | values
  | options | defaultValues | channelTypes | value | label | placeholder | disabled | required
  | default | divider | spacing | minValues | maxValues | minLength | maxLength | accentColor
  | spoiler | focused | locale | guildLocale | appPermissions | attachmentSizeLimit | version
  | context | authorizingIntegrationOwners | entitlements | users | messages | attachments
  | resolved | size | filename | proxyUrl | contentType | ephemeral | durationSecs | waveform
  | height | width | userId | deaf | mute | selfDeaf | selfMute | selfStream | selfVideo | suppress
  | messageId | roleId | parentId | targetId | skuId | entitlementId | subscriptionId | promotionId
  | giftCodeFlags | guildScheduledEventId | emoji | count | actionType | triggerType
  | ruleTriggerType | targetType | channelType | answerId | animationType | opcode | retryAfter
  | maxAge | maxUses | uses | privacyLevel | entityType | volume | available | pending | temporary
  | burst | newlyCreated | chunkIndex | chunkCount | code | reason | status | endpoint | timestamp
  | createdAt | expiresAt | lastPinTimestamp | scheduledStartTime | scheduledEndTime | userCount
  | joinedAt | premiumSince | communicationDisabledUntil | requestToSpeakTimestamp | nick | icon
  | avatar | banner | vanityUrlCode | preferredLocale | splash | discoverySplash | nonce
  | afkChannelId | systemChannelId | rulesChannelId | publicUpdatesChannelId | widgetChannelId
  | safetyAlertsChannelId | afkTimeout | maxPresences | maxMembers | premiumSubscriptionCount
  | maxVideoChannelUsers | defaultMessageNotifications | premiumTier | verificationLevel
  | explicitContentFilter | mfaLevel | nsfwLevel | widgetEnabled | premiumProgressBarEnabled
  | voiceStartTime | ids | channelIds | channels | removedMemberIds | roles | roleIds | notFound
  | ruleId | alertSystemMessageId | messageAuthorId | soundId | animationId | entityId | creatorId
  | ownerId | emojiId | emojiName | matchedKeyword | matchedContent | topic | eventType | enabled
  | discoverableDisabled | skuIds | entitlementIds | startsAt | endsAt | currentPeriodStart
  | currentPeriodEnd | canceledAt | since | clientStatus | desktop | mobile | web | joinTimestamp
  | exemptRoles | exemptChannels | emojis | stickers | threads | members | member | guilds
  | addedMembers | soundboardSounds | guildScheduledEvents | presences | stageInstances | url
  | state | details | activities | position | permissions | color | hoist | managed | mentionable
  | nsfw | rateLimitPerUser | bitrate | userLimit | lastMessageId | description | image | location
  | creator | entityMetadata | tags | packId | formatType | sortValue | asset | requireColons
  | animated | permission
  deriving DecidableEq, Repr

/-- The names in `dcc_json_gateway_key_id_len3`. -/
def keysLen3 : List (String × KeyId) :=
  [("tts", .tts), ("bot", .bot), ("ids", .ids), ("web", .web), ("url", .url)]

/-- The names in `dcc_json_gateway_key_id_len4`. -/
def keysLen4 : List (String × KeyId) :=
  [("name", .name), ("nick", .nick), ("icon", .icon), ("type", .type), ("user", .user),
  ("role", .role), ("data", .data), ("file", .file), ("tags", .tags), ("code", .code),
  ("size", .size), ("uses", .uses), ("deaf", .deaf), ("mute", .mute), ("nsfw", .nsfw)]

/-- The names in `dcc_json_gateway_key_id_len5`. -/
def keysLen5 : List (String × KeyId) :=
  [("flags", .flags), ("asset", .asset), ("large", .large), ("roles", .roles), ("users", .users),
  ("nonce", .nonce), ("burst", .burst), ("since", .since), ("topic", .topic), ("token", .token),
  ("emoji", .emoji), ("count", .count), ("state", .state), ("color", .color), ("hoist", .hoist),
  ("image", .image), ("width", .width), ("value", .value), ("items", .items), ("media", .media),
  ("style", .style), ("label", .label)]

/-- The names in `dcc_json_gateway_key_id_len6`. -/
def keysLen6 : List (String × KeyId) :=
  [("values", .values), ("author", .author), ("pinned", .pinned), ("status", .status),
  ("mobile", .mobile), ("height", .height), ("member", .member), ("emojis", .emojis),
  ("guilds", .guilds), ("sku_id", .skuId), ("opcode", .opcode), ("reason", .reason),
  ("avatar", .avatar), ("banner", .banner), ("splash", .splash), ("volume", .volume),
  ("action", .action), ("locale", .locale)]

/-- The names in `dcc_json_gateway_key_id_len7`. -/
def keysLen7 : List (String × KeyId) :=
  [("options", .options), ("default", .default), ("divider", .divider), ("spacing", .spacing),
  ("spoiler", .spoiler), ("focused", .focused), ("content", .content), ("threads", .threads),
  ("members", .members), ("desktop", .desktop), ("user_id", .userId), ("pack_id", .packId),
  ("role_id", .roleId), ("inviter", .inviter), ("rule_id", .ruleId), ("max_age", .maxAge),
  ("pending", .pending), ("enabled", .enabled), ("sku_ids", .skuIds), ("ends_at", .endsAt),
  ("details", .details), ("managed", .managed), ("bitrate", .bitrate), ("creator", .creator),
  ("version", .version), ("context", .context)]

/-- The names in `dcc_json_gateway_key_id_len8`. -/
def keysLen8 : List (String × KeyId) :=
  [("guild_id", .guildId), ("username", .username), ("suppress", .suppress),
  ("endpoint", .endpoint), ("sound_id", .soundId), ("emoji_id", .emojiId), ("owner_id", .ownerId),
  ("max_uses", .maxUses), ("role_ids", .roleIds), ("channels", .channels), ("messages", .messages),
  ("disabled", .disabled), ("required", .required), ("filename", .filename),
  ("waveform", .waveform), ("resolved", .resolved), ("stickers", .stickers),
  ("animated", .animated), ("position", .position), ("location", .location)]

/-- The names in `dcc_json_gateway_key_id_len9`. -/
def keysLen9 : List (String × KeyId) :=
  [("custom_id", .customId), ("component", .component), ("accessory", .accessory),
  ("self_deaf", .selfDeaf), ("self_mute", .selfMute), ("parent_id", .parentId),
  ("target_id", .targetId), ("timestamp", .timestamp), ("proxy_url", .proxyUrl),
  ("ephemeral", .ephemeral), ("answer_id", .answerId), ("entity_id", .entityId),
  ("joined_at", .joinedAt), ("starts_at", .startsAt), ("not_found", .notFound),
  ("temporary", .temporary), ("available", .available), ("mfa_level", .mfaLevel),
  ("presences", .presences)]

/-- The names in `dcc_json_gateway_key_id_len10`. -/
def keysLen10 : List (String × KeyId) :=
  [("session_id", .sessionId), ("components", .components), ("min_values", .minValues),
  ("max_values", .maxValues), ("min_length", .minLength), ("max_length", .maxLength),
  ("channel_id", .channelId), ("self_video", .selfVideo), ("message_id", .messageId),
  ("webhook_id", .webhookId), ("user_count", .userCount), ("created_at", .createdAt),
  ("expires_at", .expiresAt), ("creator_id", .creatorId), ("event_type", .eventType),
  ("emoji_name", .emojiName), ("activities", .activities), ("user_limit", .userLimit),
  ("nsfw_level", .nsfwLevel), ("sort_value", .sortValue), ("permission", .permission)]

/-- The names in `dcc_json_gateway_key_id_len11`. -/
def keysLen11 : List (String × KeyId) :=
  [("description", .description), ("placeholder", .placeholder), ("attachments", .attachments),
  ("format_type", .formatType), ("global_name", .globalName), ("channel_ids", .channelIds),
  ("action_type", .actionType), ("unavailable", .unavailable), ("self_stream", .selfStream),
  ("chunk_index", .chunkIndex), ("chunk_count", .chunkCount), ("retry_after", .retryAfter),
  ("target_type", .targetType), ("canceled_at", .canceledAt), ("channel_type", .channelType),
  ("entity_type", .entityType), ("permissions", .permissions), ("mentionable", .mentionable),
  ("afk_timeout", .afkTimeout), ("max_members", .maxMembers)]

/-- The names in `dcc_json_gateway_key_id_len12`. -/
def keysLen12 : List (String × KeyId) :=
  [("guild_locale", .guildLocale), ("accent_color", .accentColor), ("entitlements", .entitlements),
  ("member_count", .memberCount), ("public_flags", .publicFlags), ("trigger_type", .triggerType),
  ("sound_volume", .volume), ("content_type", .contentType), ("exempt_roles", .exemptRoles),
  ("promotion_id", .promotionId), ("animation_id", .animationId), ("premium_tier", .premiumTier)]

/-- The names in `dcc_json_gateway_key_id_len13`. -/
def keysLen13 : List (String × KeyId) :=
  [("discriminator", .discriminator), ("channel_types", .channelTypes),
  ("privacy_level", .privacyLevel), ("premium_since", .premiumSince),
  ("client_status", .clientStatus), ("duration_secs", .durationSecs),
  ("added_members", .addedMembers), ("newly_created", .newlyCreated),
  ("max_presences", .maxPresences)]

/-- The names in `dcc_json_gateway_key_id_len14`. -/
def keysLen14 : List (String × KeyId) :=
  [("require_colons", .requireColons), ("default_values", .defaultValues),
  ("application_id", .applicationId), ("component_type", .componentType),
  ("entitlement_id", .entitlementId), ("animation_type", .animationType),
  ("join_timestamp", .joinTimestamp), ("afk_channel_id", .afkChannelId),
  ("widget_enabled", .widgetEnabled)]

/-- The names in `dcc_json_gateway_key_id_len15`. -/
def keysLen15 : List (String × KeyId) :=
  [("app_permissions", .appPermissions), ("matched_keyword", .matchedKeyword),
  ("matched_content", .matchedContent), ("subscription_id", .subscriptionId),
  ("gift_code_flags", .giftCodeFlags), ("entitlement_ids", .entitlementIds),
  ("exempt_channels", .exemptChannels), ("last_message_id", .lastMessageId),
  ("entity_metadata", .entityMetadata), ("stage_instances", .stageInstances),
  ("vanity_url_code", .vanityUrlCode)]

/-- The names in `dcc_json_gateway_key_id_len16`. -/
def keysLen16 : List (String × KeyId) :=
  [("voice_start_time", .voiceStartTime), ("edited_timestamp", .editedTimestamp),
  ("mention_everyone", .mentionEveryone), ("preferred_locale", .preferredLocale),
  ("discovery_splash", .discoverySplash), ("rules_channel_id", .rulesChannelId)]

/-- The names in `dcc_json_gateway_key_id_len17`. -/
def keysLen17 : List (String × KeyId) :=
  [("rule_trigger_type", .ruleTriggerType), ("message_author_id", .messageAuthorId),
  ("soundboard_sounds", .soundboardSounds), ("system_channel_id", .systemChannelId),
  ("widget_channel_id", .widgetChannelId)]

/-- The names in `dcc_json_gateway_key_id_len18`. -/
def keysLen18 : List (String × KeyId) :=
  [("heartbeat_interval", .heartbeatInterval), ("resume_gateway_url", .resumeGatewayUrl),
  ("removed_member_ids", .removedMemberIds), ("last_pin_timestamp", .lastPinTimestamp),
  ("scheduled_end_time", .scheduledEndTime), ("current_period_end", .currentPeriodEnd),
  ("verification_level", .verificationLevel)]

/-- The names in `dcc_json_gateway_key_id_extended_tail`, by their length. -/
def keysTail : Nat → List (String × KeyId)
  | 19 =>
    [("rate_limit_per_user", .rateLimitPerUser)]
  | 20 =>
    [("scheduled_start_time", .scheduledStartTime), ("current_period_start", .currentPeriodStart)]
  | 21 =>
    [("discoverable_disabled", .discoverableDisabled),
    ("attachment_size_limit", .attachmentSizeLimit)]
  | 22 =>
    [("guild_scheduled_events", .guildScheduledEvents)]
  | 23 =>
    [("alert_system_message_id", .alertSystemMessageId),
    ("explicit_content_filter", .explicitContentFilter),
    ("max_video_channel_users", .maxVideoChannelUsers)]
  | 24 =>
    [("guild_scheduled_event_id", .guildScheduledEventId),
    ("safety_alerts_channel_id", .safetyAlertsChannelId)]
  | 25 =>
    [("public_updates_channel_id", .publicUpdatesChannelId)]
  | 26 =>
    [("request_to_speak_timestamp", .requestToSpeakTimestamp),
    ("premium_subscription_count", .premiumSubscriptionCount)]
  | 28 =>
    [("communication_disabled_until", .communicationDisabledUntil),
    ("premium_progress_bar_enabled", .premiumProgressBarEnabled)]
  | 29 =>
    [("default_message_notifications", .defaultMessageNotifications)]
  | 30 =>
    [("authorizing_integration_owners", .authorizingIntegrationOwners)]
  | _ => []

/-- `dcc_json_key_span_eq`: the literal is a C string. -/
def keySpanEq (key : Bytes) (literal : String) : Bool := key == cText (asciiText literal)

/-- The first name of a table that is the key. -/
def keyIn (table : List (String × KeyId)) (key : Bytes) : KeyId :=
  match table.find? fun entry => keySpanEq key entry.1 with
  | some entry => entry.2
  | none => .unknown

/-- `dcc_json_gateway_key_id_len3`. -/
def gatewayKeyIdLen3 (key : Bytes) : KeyId := keyIn keysLen3 key

/-- `dcc_json_gateway_key_id_len4`. -/
def gatewayKeyIdLen4 (key : Bytes) : KeyId := keyIn keysLen4 key

/-- `dcc_json_gateway_key_id_len5`. -/
def gatewayKeyIdLen5 (key : Bytes) : KeyId := keyIn keysLen5 key

/-- `dcc_json_gateway_key_id_len6`. -/
def gatewayKeyIdLen6 (key : Bytes) : KeyId := keyIn keysLen6 key

/-- `dcc_json_gateway_key_id_len7`. -/
def gatewayKeyIdLen7 (key : Bytes) : KeyId := keyIn keysLen7 key

/-- `dcc_json_gateway_key_id_len8`. -/
def gatewayKeyIdLen8 (key : Bytes) : KeyId := keyIn keysLen8 key

/-- `dcc_json_gateway_key_id_len9`. -/
def gatewayKeyIdLen9 (key : Bytes) : KeyId := keyIn keysLen9 key

/-- `dcc_json_gateway_key_id_len10`. -/
def gatewayKeyIdLen10 (key : Bytes) : KeyId := keyIn keysLen10 key

/-- `dcc_json_gateway_key_id_len11`. -/
def gatewayKeyIdLen11 (key : Bytes) : KeyId := keyIn keysLen11 key

/-- `dcc_json_gateway_key_id_len12`. -/
def gatewayKeyIdLen12 (key : Bytes) : KeyId := keyIn keysLen12 key

/-- `dcc_json_gateway_key_id_len13`. -/
def gatewayKeyIdLen13 (key : Bytes) : KeyId := keyIn keysLen13 key

/-- `dcc_json_gateway_key_id_len14`. -/
def gatewayKeyIdLen14 (key : Bytes) : KeyId := keyIn keysLen14 key

/-- `dcc_json_gateway_key_id_len15`. -/
def gatewayKeyIdLen15 (key : Bytes) : KeyId := keyIn keysLen15 key

/-- `dcc_json_gateway_key_id_len16`. -/
def gatewayKeyIdLen16 (key : Bytes) : KeyId := keyIn keysLen16 key

/-- `dcc_json_gateway_key_id_len17`. -/
def gatewayKeyIdLen17 (key : Bytes) : KeyId := keyIn keysLen17 key

/-- `dcc_json_gateway_key_id_len18`. -/
def gatewayKeyIdLen18 (key : Bytes) : KeyId := keyIn keysLen18 key

/-- `dcc_json_gateway_key_id_short`. -/
def gatewayKeyIdShort (key : Bytes) : KeyId :=
  match key.length with
  | 1 =>
    if key = [0x73] then .s
    else if key = [0x74] then .t
    else if key = [0x64] then .d
    else .unknown
  | 2 =>
    if key = [0x6f, 0x70] then .op
    else if key = [0x69, 0x64] then .id
    else .unknown
  | 3 => gatewayKeyIdLen3 key
  | 4 => gatewayKeyIdLen4 key
  | 5 => gatewayKeyIdLen5 key
  | _ => .unknown

/-- `dcc_json_gateway_key_id_medium_tail`. -/
def gatewayKeyIdMediumTail (key : Bytes) : KeyId :=
  match key.length with
  | 9 => gatewayKeyIdLen9 key
  | 10 => gatewayKeyIdLen10 key
  | _ => .unknown

/-- `dcc_json_gateway_key_id_medium`. -/
def gatewayKeyIdMedium (key : Bytes) : KeyId :=
  match key.length with
  | 6 => gatewayKeyIdLen6 key
  | 7 => gatewayKeyIdLen7 key
  | 8 => gatewayKeyIdLen8 key
  | 9 => gatewayKeyIdMediumTail key
  | 10 => gatewayKeyIdMediumTail key
  | _ => .unknown

/-- `dcc_json_gateway_key_id_long`. -/
def gatewayKeyIdLong (key : Bytes) : KeyId :=
  match key.length with
  | 11 => gatewayKeyIdLen11 key
  | 12 => gatewayKeyIdLen12 key
  | 13 => gatewayKeyIdLen13 key
  | 14 => gatewayKeyIdLen14 key
  | 15 => gatewayKeyIdLen15 key
  | _ => .unknown

/-- `dcc_json_gateway_key_id_extended_tail`. -/
def gatewayKeyIdExtendedTail (key : Bytes) : KeyId := keyIn (keysTail key.length) key

/-- `dcc_json_gateway_key_id_extended`. -/
def gatewayKeyIdExtended (key : Bytes) : KeyId :=
  match key.length with
  | 16 => gatewayKeyIdLen16 key
  | 17 => gatewayKeyIdLen17 key
  | 18 => gatewayKeyIdLen18 key
  | _ => gatewayKeyIdExtendedTail key

/-- `dcc_json_gateway_key_id`. -/
def gatewayKeyId (key : Bytes) : KeyId :=
  if key.length ≤ 5 then gatewayKeyIdShort key
  else if key.length ≤ 10 then gatewayKeyIdMedium key
  else if key.length ≤ 15 then gatewayKeyIdLong key
  else gatewayKeyIdExtended key

/-- Every name a field has. -/
def fieldNames : List (String × KeyId) :=
  [("s", .s), ("t", .t), ("d", .d), ("op", .op), ("id", .id)] ++
    [keysLen3, keysLen4, keysLen5, keysLen6, keysLen7, keysLen8, keysLen9, keysLen10, keysLen11,
      keysLen12, keysLen13, keysLen14, keysLen15, keysLen16, keysLen17, keysLen18].flatten ++
    (List.range 31).flatMap keysTail

/-- The bytes are a name of the field. -/
def IsField (bytes : Bytes) (field : KeyId) : Prop :=
  ∃ name, (name, field) ∈ fieldNames ∧ bytes = cText (asciiText name)

/-! ## The key and the loop over the members -/

/-- The field a delimited key names: in place, or decoded into 64 bytes as a C string. -/
def keyOf (span : StringSpan) : Option KeyId :=
  if span.escaped then (decodeStringSpan span.raw 64).map fun key => gatewayKeyId (cText key)
  else some (gatewayKeyId span.raw)

/-- `dcc_json_parse_gateway_key`: the field and the cursor after the key. -/
def parseGatewayKey (cur : Bytes) : Option (KeyId × Bytes) :=
  (findStringEnd cur).bind fun span => (keyOf span).map fun field => (field, span.after)

/-- The four families of handlers of `dcc_json_gateway_parse_d` over a payload `σ`: a
handler fails, or leaves the field alone, or reads its value and moves the cursor.
Every handler asks for fields by name, so none takes the unknown one. -/
structure FieldHandlers (σ : Type) where
  handle : KeyId → Bytes → σ → Option (σ × Option Bytes)
  unknown : ∀ cur s, handle .unknown cur s = some (s, none)
  resumable : Bool → σ → σ

section Loop

variable {σ : Type} (handlers : FieldHandlers σ)

/-- The colon between a key and its value. -/
def afterColon (cur : Bytes) : Option Bytes :=
  match skipWs cur with
  | [] => none
  | c :: p => if c ≠ chColon then none else some (skipWs p)

/-- The value of a member: what no handler takes is passed over. -/
def parseField (field : KeyId) (cur : Bytes) (s : σ) : Option (σ × Bytes) :=
  (handlers.handle field cur s).bind fun r =>
    match r.2 with
    | some rest => some (r.1, rest)
    | none => (skipValue cur).map fun rest => (r.1, rest)

/-- What follows a member: the closing brace, or a comma and the `next` member. -/
def memberEnd (next : Bytes → σ → Option (σ × Bytes)) (s : σ) (cur : Bytes) :
    Option (σ × Bytes) :=
  match skipWs cur with
  | [] => none
  | d :: q =>
    if d = chRBrace then some (s, q)
    else if d ≠ chComma then none
    else next (skipWs q) s

/-- The loop of `dcc_json_gateway_parse_d`, from the first key. -/
def gatewayMembers : Nat → Bytes → σ → Option (σ × Bytes)
  | 0, _, _ => none
  | fuel + 1, cur, s =>
    (parseGatewayKey cur).bind fun key =>
      (afterColon key.2).bind fun p =>
        (parseField handlers key.1 p s).bind fun value =>
          memberEnd (gatewayMembers fuel) value.1 value.2

/-- `dcc_json_gateway_parse_d`. -/
def gatewayParseD (cur : Bytes) (s : σ) : Option (σ × Bytes) :=
  match skipWs cur with
  | [] => none
  | c :: p =>
    if c = 0x74 ∨ c = 0x66 then
      match matchLiteral (c :: p) litTrue with
      | some rest => some (handlers.resumable true s, rest)
      | none => (matchLiteral (c :: p) litFalse).map fun rest => (handlers.resumable false s, rest)
    else if c ≠ chLBrace then (skipValue (c :: p)).map fun rest => (s, rest)
    else if (skipWs p).head? = some chRBrace then some (s, (skipWs p).drop 1)
    else gatewayMembers handlers p.length (skipWs p) s

end Loop

/-! ## Known keys are names -/

variable {table : List (String × KeyId)} {key : Bytes}

theorem isField_of_keyIn
    (hsub : ∀ entry ∈ table, entry ∈ fieldNames) (h : keyIn table key ≠ .unknown) :
    IsField key (keyIn table key) := by
  unfold keyIn at h ⊢
  cases hfind : table.find? fun entry => keySpanEq key entry.1 with
  | none =>
    rw [hfind] at h
    exact absurd rfl h
  | some entry =>
    have hmem := hsub entry (List.mem_of_find?_eq_some hfind)
    have heq := List.find?_some hfind
    exact ⟨entry.1, hmem, by simpa [keySpanEq] using heq⟩

theorem isField_of_table
    (htable : table ∈ [keysLen3, keysLen4, keysLen5, keysLen6, keysLen7, keysLen8, keysLen9,
      keysLen10, keysLen11, keysLen12, keysLen13, keysLen14, keysLen15, keysLen16, keysLen17,
      keysLen18]) (h : keyIn table key ≠ .unknown) : IsField key (keyIn table key) := by
  refine isField_of_keyIn (fun entry hentry => ?_) h
  exact List.mem_append_left _
    (List.mem_append_right _ (List.mem_flatten.mpr ⟨table, htable, hentry⟩))

theorem keysTail_of_long {n : Nat} (h : 31 ≤ n) : keysTail n = [] := by
  unfold keysTail
  split <;> first | omega | rfl

theorem mem_fieldNames_of_tail {entry : String × KeyId} {n : Nat} (h : entry ∈ keysTail n) :
    entry ∈ fieldNames := by
  by_cases hn : n < 31
  · exact List.mem_append_right _ (List.mem_flatMap.mpr ⟨n, List.mem_range.mpr hn, h⟩)
  · rw [keysTail_of_long (by omega)] at h
    cases h

theorem known_short (h : gatewayKeyIdShort key ≠ .unknown) :
    IsField key (gatewayKeyIdShort key) := by
  have hone : ∀ entry ∈ [("s", KeyId.s), ("t", .t), ("d", .d), ("op", .op), ("id", .id)],
      entry ∈ fieldNames := fun _ hentry =>
    List.mem_append_left _ (List.mem_append_left _ hentry)
  unfold gatewayKeyIdShort at h ⊢
  split at h
  · split_ifs at h ⊢ with hs ht hd
    · exact ⟨"s", hone _ (by simp), by rw [hs]; decide +kernel⟩
    · exact ⟨"t", hone _ (by simp), by rw [ht]; decide +kernel⟩
    · exact ⟨"d", hone _ (by simp), by rw [hd]; decide +kernel⟩
    · exact absurd rfl h
  · split_ifs at h ⊢ with hop hid
    · exact ⟨"op", hone _ (by simp), by rw [hop]; decide +kernel⟩
    · exact ⟨"id", hone _ (by simp), by rw [hid]; decide +kernel⟩
    · exact absurd rfl h
  · exact isField_of_table (by simp) h
  · exact isField_of_table (by simp) h
  · exact isField_of_table (by simp) h
  · exact absurd rfl h

theorem known_mediumTail (h : gatewayKeyIdMediumTail key ≠ .unknown) :
    IsField key (gatewayKeyIdMediumTail key) := by
  unfold gatewayKeyIdMediumTail at h ⊢
  split at h
  · exact isField_of_table (by simp) h
  · exact isField_of_table (by simp) h
  · exact absurd rfl h

theorem known_medium (h : gatewayKeyIdMedium key ≠ .unknown) :
    IsField key (gatewayKeyIdMedium key) := by
  unfold gatewayKeyIdMedium at h ⊢
  split at h
  · exact isField_of_table (by simp) h
  · exact isField_of_table (by simp) h
  · exact isField_of_table (by simp) h
  · exact known_mediumTail h
  · exact known_mediumTail h
  · exact absurd rfl h

theorem known_long (h : gatewayKeyIdLong key ≠ .unknown) :
    IsField key (gatewayKeyIdLong key) := by
  unfold gatewayKeyIdLong at h ⊢
  split at h
  · exact isField_of_table (by simp) h
  · exact isField_of_table (by simp) h
  · exact isField_of_table (by simp) h
  · exact isField_of_table (by simp) h
  · exact isField_of_table (by simp) h
  · exact absurd rfl h

theorem known_extended (h : gatewayKeyIdExtended key ≠ .unknown) :
    IsField key (gatewayKeyIdExtended key) := by
  unfold gatewayKeyIdExtended at h ⊢
  split at h
  · exact isField_of_table (by simp) h
  · exact isField_of_table (by simp) h
  · exact isField_of_table (by simp) h
  · exact isField_of_keyIn (fun _ => mem_fieldNames_of_tail) h

/-- **A key the tables know** is, byte for byte, the name of the field they give. -/
theorem isField_of_known (h : gatewayKeyId key ≠ .unknown) :
    IsField key (gatewayKeyId key) := by
  unfold gatewayKeyId at h ⊢
  by_cases hshort : key.length ≤ 5
  · rw [if_pos hshort] at h ⊢
    exact known_short h
  rw [if_neg hshort] at h ⊢
  by_cases hmedium : key.length ≤ 10
  · rw [if_pos hmedium] at h ⊢
    exact known_medium h
  rw [if_neg hmedium] at h ⊢
  by_cases hlong : key.length ≤ 15
  · rw [if_pos hlong] at h ⊢
    exact known_long h
  · rw [if_neg hlong] at h ⊢
    exact known_extended h

theorem IsField.noNul {bytes : Bytes} {field : KeyId} (h : IsField bytes field) :
    (0 : UInt8) ∉ bytes := by
  obtain ⟨name, -, rfl⟩ := h
  intro hmem
  have hne := List.mem_takeWhile_imp hmem
  simp at hne

theorem gatewayKeyId_of_nul (h : (0 : UInt8) ∈ key) : gatewayKeyId key = .unknown :=
  Decidable.byContradiction fun hknown => (isField_of_known hknown).noNul h

/-! ## Spellings of a key -/

/-- A spelling of a key in a payload: a string token at the cursor, whatever follows it,
that denotes the characters `cs`. -/
structure KeySpelling (cs : List Char) where
  cur : Bytes
  span : StringSpan
  tokens : List Token
  delimited : findStringEnd cur = some span
  spells : Tokens span.raw tokens
  content : denote tokens = some cs

variable {σ : Type} {cs : List Char}

/-- **What the parser makes of a spelling.** -/
theorem parseGatewayKey_spelling (key : KeySpelling cs) :
    parseGatewayKey key.cur = if key.span.escaped then
        if (utf8 cs).length < 64 then some (gatewayKeyId (cText (utf8 cs)), key.span.after)
        else none
      else some (gatewayKeyId (utf8 cs), key.span.after) := by
  have hscan := (findStringEnd_scanned key.delimited).2
  have hcontent : (denote key.tokens).map utf8 = some (utf8 cs) := by rw [key.content, Option.map_some]
  rw [parseGatewayKey, key.delimited, Option.bind_some, keyOf]
  cases hflag : key.span.escaped with
  | true =>
    rw [if_pos rfl, if_pos rfl, decodeStringSpan_fits key.spells, hcontent]
    by_cases hfits : (utf8 cs).length < 64
    · rw [if_pos hfits, Option.filter_some_pos (by simpa using hfits)]
      rfl
    · rw [if_neg hfits, Option.filter_some_neg (by simpa using hfits)]
      rfl
  | false =>
    rw [hflag] at hscan
    have hraw := denote_of_unescaped hscan key.spells
    rw [hcontent] at hraw
    obtain hraw := Option.some.inj hraw
    rw [if_neg Bool.false_ne_true, if_neg Bool.false_ne_true, ← hraw]
    rfl

/-- The loop passes over the member and goes on behind its value, the payload unchanged. -/
def Skips (handlers : FieldHandlers σ) (cur after : Bytes) : Prop :=
  ∀ fuel s, gatewayMembers handlers (fuel + 1) cur s = (afterColon after).bind fun p =>
      (skipValue p).bind fun rest => memberEnd (gatewayMembers handlers fuel) s rest

/-- Two spellings of one key are recognised alike; as a field only where the whole content
is its name; and as no field at all only to be passed over. -/
def KeyLaw (handlers : FieldHandlers σ) (key other : KeySpelling cs) : Prop :=
  ∃ field, parseGatewayKey key.cur = some (field, key.span.after) ∧
    parseGatewayKey other.cur = some (field, other.span.after) ∧
    (field ≠ .unknown → IsField (utf8 cs) field) ∧
    (field = .unknown →
      Skips handlers key.cur key.span.after ∧ Skips handlers other.cur other.span.after)

/-- An escaped spelling has to fit in the buffer, and no field's name may stand in front
of a NUL. -/
def KeySpelling.Fits (key : KeySpelling cs) : Prop :=
  key.span.escaped = true →
    (utf8 cs).length < 64 ∧ ((0 : UInt8) ∈ utf8 cs → gatewayKeyId (cText (utf8 cs)) = .unknown)

theorem KeySpelling.Fits.parse {key : KeySpelling cs} (h : key.Fits) :
    parseGatewayKey key.cur = some (gatewayKeyId (utf8 cs), key.span.after) := by
  rw [parseGatewayKey_spelling]
  by_cases hflag : key.span.escaped = true
  · obtain ⟨hlength, hnul⟩ := h hflag
    have hwhole : gatewayKeyId (cText (utf8 cs)) = gatewayKeyId (utf8 cs) := by
      by_cases hmem : (0 : UInt8) ∈ utf8 cs
      · rw [hnul hmem, gatewayKeyId_of_nul hmem]
      · rw [Cache.Merge.cText_of_not_mem hmem]
    rw [if_pos hflag, if_pos hlength, hwhole]
  · rw [if_neg hflag]

theorem KeySpelling.fits_of_parse {key : KeySpelling cs} {field : KeyId}
    (h : parseGatewayKey key.cur = some (field, key.span.after))
    (hfield : field ≠ .unknown → IsField (utf8 cs) field) : key.Fits := by
  intro hflag
  rw [parseGatewayKey_spelling, if_pos hflag] at h
  split at h
  · next hlength =>
    obtain ⟨rfl, -⟩ := Prod.mk.inj (Option.some.inj h)
    refine ⟨hlength, fun hnul => ?_⟩
    by_contra hknown
    exact (hfield hknown).noNul hnul
  · cases h

theorem skips_of_unknown (handlers : FieldHandlers σ) {cur after : Bytes}
    (h : parseGatewayKey cur = some (.unknown, after)) : Skips handlers cur after := by
  intro fuel s
  rw [gatewayMembers, h, Option.bind_some]
  cases afterColon after with
  | none => rfl
  | some p =>
    rw [Option.bind_some, Option.bind_some, parseField, handlers.unknown, Option.bind_some]
    cases skipValue p with
    | none => rfl
    | some rest => rfl

/-- **Recognition of keys.**  Two spellings of a key, in any payloads, are recognised
alike, by their whole content, and passed over where it is not known, if and only if both
fit: an escaped spelling takes less than 64 bytes decoded and has no field's name in front
of a NUL. -/
theorem gateway_key_law (handlers : FieldHandlers σ) (key other : KeySpelling cs) :
    KeyLaw handlers key other ↔ key.Fits ∧ other.Fits := by
  constructor
  · intro hlaw
    obtain ⟨field, hkey, hother, hfield, -⟩ := hlaw
    exact ⟨KeySpelling.fits_of_parse hkey hfield, KeySpelling.fits_of_parse hother hfield⟩
  · intro hfits
    obtain ⟨hkey, hother⟩ := hfits
    refine ⟨gatewayKeyId (utf8 cs), hkey.parse, hother.parse, isField_of_known, fun hunknown => ?_⟩
    have hparse := hkey.parse
    have hparse' := hother.parse
    rw [hunknown] at hparse hparse'
    exact ⟨skips_of_unknown handlers hparse, skips_of_unknown handlers hparse'⟩

/-- The key `"id\u0000x"`. -/
def nulKey : KeySpelling ['i', 'd', '\x00', 'x'] where
  cur := [0x22, 0x69, 0x64, 0x5c, 0x75, 0x30, 0x30, 0x30, 0x30, 0x78, 0x22, 0x3a]
  span := ⟨[0x69, 0x64, 0x5c, 0x75, 0x30, 0x30, 0x30, 0x30, 0x78, 0x22, 0x3a], [0x22, 0x3a], true⟩
  tokens := [.char 'i', .char 'd', .unit 0, .char 'x']
  delimited := by decide +kernel
  spells := by
    have hx : Tokens [0x78] [.char 'x'] :=
      Tokens.nil.plain (c := 'x') ⟨by decide, by decide, by decide⟩
    have hnul : Tokens [0x5c, 0x75, 0x30, 0x30, 0x30, 0x30, 0x78] [.unit 0, .char 'x'] :=
      hx.unicode (Hex4.mk (i := 0) (j := 0) (k := 0) (l := 0) rfl rfl rfl rfl)
    have hd := hnul.plain (c := 'd') ⟨by decide, by decide, by decide⟩
    exact hd.plain (c := 'i') ⟨by decide, by decide, by decide⟩
  content := by decide

/-- The key `"id\u0000x"` is read as the field `id`, whose name it is not. -/
theorem nul_key_read_as_id :
    ¬ ∀ (handlers : FieldHandlers Unit) (cs : List Char) (key other : KeySpelling cs),
      KeyLaw handlers key other := by
  intro hall
  obtain ⟨field, hparse, -, hfield, -⟩ := hall
    ⟨fun _ _ s => some (s, none), fun _ _ => rfl, fun _ s => s⟩ _ nulKey nulKey
  have hread : parseGatewayKey nulKey.cur = some (.id, nulKey.span.after) := by decide +kernel
  rw [hread] at hparse
  obtain ⟨rfl, -⟩ := Prod.mk.inj (Option.some.inj hparse)
  exact (hfield (by decide)).noNul (by decide)

end Dcc.Json
