import Dcc.Basic
import Dcc.Lib.Decimal
import Dcc.Lib.SplitWord

/-!
# Message links

A link names a message by its channel, and by its guild unless the channel is a direct one.

* `messageLinkFormat_eq` — a link is written whole or not at all;
* `link_of_segments` — the segments that are parsed make a link that can be written;
* `message_link_roundtrip` — what is written is parsed back, and what is parsed can be written into
  a buffer of `messageLinkMax` bytes.
-/

namespace Dcc.Messages

open Decimal SplitWord

/-! ## Snowflakes -/

/-- `dcc_snowflake_parse_len`, and `dcc_snowflake_parse` of a C string. -/
def snowflakeParse (text : Bytes) : Except Status UInt64 :=
  match readDecimal wordMax text with
  | none => .error .invalidArg
  | some value => if value = 0 then .error .invalidArg else .ok (.ofNat value)

theorem snowflakeParse_ne_zero {text : Bytes} {id : UInt64} (h : snowflakeParse text = .ok id) :
    id ≠ 0 := by
  unfold snowflakeParse at h
  split at h
  · cases h
  · next value hread =>
    split at h
    · cases h
    · next hvalue =>
      have hle := readDecimal_le (by decide) hread
      cases h
      intro hzero
      have hmod := congrArg UInt64.toNat hzero
      rw [UInt64.toNat_ofNat', Nat.mod_eq_of_lt (Nat.lt_of_le_of_lt hle (by decide))] at hmod
      exact hvalue hmod

theorem snowflakeParse_text {id : UInt64} (h : id ≠ 0) :
    snowflakeParse (decimalText id.toNat) = .ok id := by
  have hid : id.toNat ≠ 0 := fun hzero => h (UInt64.toNat_inj.mp hzero)
  have hle : id.toNat ≤ wordMax := Nat.le_sub_one_of_lt id.toNat_lt
  simp [snowflakeParse, readDecimal_decimalText hle, hid]

/-! ## Links -/

/-- `dcc_message_link_t`. -/
structure MessageLink where
  guildId : UInt64
  channelId : UInt64
  messageId : UInt64
  isDm : UInt8
  deriving DecidableEq

/-- `DCC_MESSAGE_LINK_MAX`. -/
def messageLinkMax : Nat := 128

/-- What is written between the host and the message. -/
def linkText (place : Bytes) (link : MessageLink) : Bytes :=
  asciiText "https://discord.com/channels/" ++ (place ++ ([0x2f] ++
    (decimalText link.channelId.toNat ++ ([0x2f] ++ decimalText link.messageId.toNat))))

/-- `dcc_message_link_format_done`, with what `snprintf` writes: the status and the buffer. -/
def messageLinkFormatDone (bufferSize : Nat) : Option Bytes → Status × Bytes
  | none => (.invalidArg, [])
  | some written =>
    if bufferSize = 0 ∨ bufferSize ≤ written.length then (.invalidArg, []) else (.ok, written)

/-- `dcc_message_link_format`. -/
def messageLinkFormat (bufferSize : Nat) (link : MessageLink) : Status × Bytes :=
  if bufferSize = 0 ∨ link.channelId = 0 ∨ link.messageId = 0 then
    messageLinkFormatDone bufferSize none
  else if link.isDm ≠ 0 then
    if link.guildId ≠ 0 then messageLinkFormatDone bufferSize none
    else messageLinkFormatDone bufferSize (some (linkText (asciiText "@me") link))
  else if link.guildId = 0 then messageLinkFormatDone bufferSize none
  else messageLinkFormatDone bufferSize (some (linkText (decimalText link.guildId.toNat) link))

/-- The fronts of a link, in the order of `dcc_message_link_after_prefix`. -/
def linkFronts : List Bytes :=
  [asciiText "https://discord.com/channels/", asciiText "http://discord.com/channels/",
    asciiText "https://canary.discord.com/channels/", asciiText "http://canary.discord.com/channels/",
    asciiText "https://ptb.discord.com/channels/", asciiText "http://ptb.discord.com/channels/",
    asciiText "/channels/", asciiText "channels/"]

/-- `dcc_message_link_after_prefix`. -/
def messageLinkAfterPrefix (text : Bytes) : Option Bytes :=
  (linkFronts.find? fun front => front.isPrefixOf text).map fun front => text.drop front.length

/-- The first segment: a direct channel, or a guild. -/
def placeOf (first : Bytes) : Except Status (UInt8 × UInt64) :=
  if first = asciiText "@me" then .ok (1, 0) else (snowflakeParse first).map fun id => (0, id)

/-- `dcc_message_link_parse_segments`. -/
def messageLinkParseSegments (segments : Bytes) : Except Status MessageLink :=
  match cut [0x2f] segments with
  | none => .error .invalidArg
  | some (first, rest) =>
    if first = [] then .error .invalidArg
    else
      match cut [0x2f] rest with
      | none => .error .invalidArg
      | some (second, third) =>
        if second = [] ∨ (cut [0x2f] third).isSome ∨ third = [] then .error .invalidArg
        else do
          let place ← placeOf first
          let channelId ← snowflakeParse second
          let messageId ← snowflakeParse third
          return ⟨place.2, channelId, messageId, place.1⟩

/-- `dcc_message_link_parse`. -/
def messageLinkParse (text : Bytes) : Except Status MessageLink :=
  match messageLinkAfterPrefix text with
  | none => .error .invalidArg
  | some segments => messageLinkParseSegments segments

/-! ## Written and parsed -/

/-- A direct channel is in no guild. -/
structure MessageLink.Valid (link : MessageLink) : Prop where
  channel : link.channelId ≠ 0
  message : link.messageId ≠ 0
  place : link.isDm ≠ 0 ↔ link.guildId = 0

/-- The first segment of a link. -/
def MessageLink.first (link : MessageLink) : Bytes :=
  if link.isDm ≠ 0 then asciiText "@me" else decimalText link.guildId.toNat

/-- The flag of a direct channel is one. -/
def MessageLink.canonical (link : MessageLink) : MessageLink :=
  { link with isDm := if link.isDm ≠ 0 then 1 else 0 }

variable {link : MessageLink}

/-- **A link is written whole or not at all.** -/
theorem messageLinkFormat_eq (bufferSize : Nat) (link : MessageLink) :
    (messageLinkFormat bufferSize link = (.ok, linkText link.first link) ∧ link.Valid ∧
        (linkText link.first link).length < bufferSize) ∨
      (messageLinkFormat bufferSize link = (.invalidArg, []) ∧
        ¬ (link.Valid ∧ (linkText link.first link).length < bufferSize)) := by
  have hdone : link.Valid →
      (messageLinkFormatDone bufferSize (some (linkText link.first link)) =
          (.ok, linkText link.first link) ∧ link.Valid ∧
            (linkText link.first link).length < bufferSize) ∨
        (messageLinkFormatDone bufferSize (some (linkText link.first link)) = (.invalidArg, []) ∧
          ¬ (link.Valid ∧ (linkText link.first link).length < bufferSize)) := by
    intro hvalid
    by_cases hsize : (linkText link.first link).length < bufferSize
    · exact .inl ⟨if_neg (by omega), hvalid, hsize⟩
    · exact .inr ⟨if_pos (.inr (Nat.le_of_not_lt hsize)), fun h => hsize h.2⟩
  unfold messageLinkFormat
  split_ifs with hnone hdm hguild hguild
  · refine .inr ⟨rfl, fun ⟨hvalid, hsize⟩ => ?_⟩
    rcases hnone with hzero | hzero | hzero
    · omega
    · exact hvalid.channel hzero
    · exact hvalid.message hzero
  · exact .inr ⟨rfl, fun ⟨hvalid, _⟩ => hguild (hvalid.place.mp hdm)⟩
  · simp only [not_or] at hnone
    obtain ⟨-, hchannel, hmessage⟩ := hnone
    have h := hdone ⟨hchannel, hmessage, iff_of_true hdm (not_not.mp hguild)⟩
    rwa [MessageLink.first, if_pos hdm] at h ⊢
  · exact .inr ⟨rfl, fun ⟨hvalid, _⟩ => hdm (hvalid.place.mpr hguild)⟩
  · simp only [not_or] at hnone
    obtain ⟨-, hchannel, hmessage⟩ := hnone
    have h := hdone ⟨hchannel, hmessage, iff_of_false hdm hguild⟩
    rwa [MessageLink.first, if_neg hdm] at h ⊢

theorem free_decimalText (n : Nat) : Free [0x2f] (decimalText n) := by
  refine free_of_not_mem fun hmem => ?_
  have hdigit := digit_of_mem hmem
  exact absurd hdigit.1 (by decide)

theorem MessageLink.free_first (link : MessageLink) : Free [0x2f] link.first := by
  unfold first
  split
  · exact free_of_not_mem (by decide)
  · exact free_decimalText _

/-- The first segment of a link that can be written is read as its place. -/
theorem placeOf_first (h : link.Valid) :
    link.first ≠ [] ∧ placeOf link.first = .ok (link.canonical.isDm, link.guildId) := by
  unfold MessageLink.first MessageLink.canonical
  split
  · next hdm => exact ⟨by decide, by rw [h.place.mp hdm]; rfl⟩
  · next hdm =>
    have hguild : link.guildId ≠ 0 := fun hzero => hdm (h.place.mpr hzero)
    have hplace : decimalText link.guildId.toNat ≠ asciiText "@me" := by
      intro heq
      have hat : (0x40 : UInt8) ∈ decimalText link.guildId.toNat := by rw [heq]; decide
      exact absurd (digit_of_mem hat).2 (by decide)
    refine ⟨decimalText_ne_nil _, ?_⟩
    rw [placeOf, if_neg hplace, snowflakeParse_text hguild]
    rfl

theorem messageLinkParse_text (h : link.Valid) :
    messageLinkParse (linkText link.first link) = .ok link.canonical := by
  have hword : Solid [(0x2f : UInt8)] := ⟨0x2f, [], rfl, by simp⟩
  obtain ⟨hne, hplace⟩ := placeOf_first h
  have hafter : ∀ segments, messageLinkAfterPrefix
      (asciiText "https://discord.com/channels/" ++ segments) = some segments := by
    intro segments
    have hfront : (asciiText "https://discord.com/channels/").isPrefixOf
        (asciiText "https://discord.com/channels/" ++ segments) = true :=
      List.isPrefixOf_iff_prefix.mpr (List.prefix_append _ _)
    simp only [messageLinkAfterPrefix, linkFronts, List.find?_cons, hfront, Option.map_some,
      List.drop_left]
  have hthird : cut [0x2f] (decimalText link.messageId.toNat) = none := by
    cases hcut : cut [0x2f] (decimalText link.messageId.toNat) with
    | none => rfl
    | some found =>
      refine absurd ?_ (free_decimalText link.messageId.toNat)
      rw [(cut_some (by decide) hcut).1]
      exact List.infix_append' _ _ _
  rw [messageLinkParse, linkText, hafter]
  simp only [messageLinkParseSegments, cut_append hword link.free_first, if_neg hne,
    cut_append hword (free_decimalText _), hthird, decimalText_ne_nil, Option.isSome_none,
    Bool.false_eq_true, or_self, if_false, hplace, snowflakeParse_text h.channel,
    snowflakeParse_text h.message]
  rfl

/-- The segments that are parsed make a link that can be written. -/
theorem link_of_segments {segments : Bytes} (h : messageLinkParseSegments segments = .ok link) :
    link.Valid ∧ link.canonical = link := by
  unfold messageLinkParseSegments at h
  split at h
  · cases h
  · next first rest hcut =>
    split_ifs at h with hfirst
    split at h
    · cases h
    · next second third hcut' =>
      split_ifs at h with hsecond
      cases hplace : placeOf first with
      | error status => rw [hplace] at h; cases h
      | ok place =>
        cases hchannel : snowflakeParse second with
        | error status => rw [hplace, hchannel] at h; cases h
        | ok channelId =>
          cases hmessage : snowflakeParse third with
          | error status => rw [hplace, hchannel, hmessage] at h; cases h
          | ok messageId =>
            rw [hplace, hchannel, hmessage] at h
            cases h
            have hids := And.intro (snowflakeParse_ne_zero hchannel) (snowflakeParse_ne_zero hmessage)
            unfold placeOf at hplace
            split at hplace
            · cases hplace
              exact ⟨⟨hids.1, hids.2, by simp⟩, rfl⟩
            · cases hguild : snowflakeParse first with
              | error status => rw [hguild] at hplace; cases hplace
              | ok guildId =>
                rw [hguild] at hplace
                cases hplace
                exact ⟨⟨hids.1, hids.2, by simpa using snowflakeParse_ne_zero hguild⟩, rfl⟩

theorem length_linkText_lt (link : MessageLink) :
    (linkText link.first link).length < messageLinkMax := by
  have hdigits : ∀ id : UInt64, (decimalText id.toNat).length ≤ 20 := fun id =>
    length_decimalText_le (by decide) (Nat.lt_of_lt_of_le id.toNat_lt (by decide))
  have hfirst : link.first.length ≤ 20 := by
    unfold MessageLink.first
    split
    · decide
    · exact hdigits _
  have hfront : (asciiText "https://discord.com/channels/").length = 29 := by decide
  have hchannel := hdigits link.channelId
  have hmessage := hdigits link.messageId
  simp only [linkText, List.length_append, List.length_singleton, hfront, messageLinkMax]
  omega

/-- **Links come back.**  A link that was written into a buffer of any size is parsed from it again,
with its flag as one; and a text of any spelling that is parsed makes a link that can be written
into a buffer of `messageLinkMax` bytes, where it is a spelling of the same link. -/
theorem message_link_roundtrip :
    (∀ bufferSize link text, messageLinkFormat bufferSize link = (.ok, text) →
      messageLinkParse text = .ok link.canonical) ∧
    ∀ text link, messageLinkParse text = .ok link →
      ∃ written, messageLinkFormat messageLinkMax link = (.ok, written) ∧
        messageLinkParse written = .ok link := by
  constructor
  · intro bufferSize link text hformat
    rcases messageLinkFormat_eq bufferSize link with ⟨heq, hvalid, -⟩ | ⟨heq, -⟩
    · rw [heq] at hformat
      cases hformat
      exact messageLinkParse_text hvalid
    · rw [heq] at hformat
      cases hformat
  · intro text link hparse
    unfold messageLinkParse at hparse
    split at hparse
    · cases hparse
    · next segments hsegments =>
      obtain ⟨hvalid, hcanonical⟩ := link_of_segments hparse
      have hwritten := messageLinkParse_text hvalid
      rw [hcanonical] at hwritten
      rcases messageLinkFormat_eq messageLinkMax link with ⟨heq, -⟩ | ⟨-, hno⟩
      · exact ⟨_, heq, hwritten⟩
      · exact absurd ⟨hvalid, length_linkText_lt link⟩ hno

end Dcc.Messages
