import Dcc.Commands.Payload

/-!
# The remote snapshot

`dcc_command_registry_remote_snapshot_parse_json` reads the list of the remote commands and
writes each of them anew: the members that the registry compares, in the order of the
serializer, without those that are null, without an empty list of options and without the
empty description of a command that has none.  The plan compares this text byte for byte
with the payload of the local command.

* `remoteFields_eq`: which members are kept, key by key;
* `payload_eq_canonical_iff`: the payload of a command is the text of a remote command
  exactly when its raw members are compact and its members are the kept ones.
-/

namespace Dcc.Commands

open Dcc.Json Dcc.Json.Grammar Decimal

/-! ## Reading a tree -/

/-- `dcc_json_object_get`. -/
def objectGet (json : Value) (key : Bytes) : Option Value :=
  match json with
  | .object entries => (entries.find? fun entry => entry.1 == key).map Prod.snd
  | _ => none

/-- `dcc_json_u64`, with `dcc_json_parse_u64_ascii`. -/
def jsonU64 : Option Value → Option Nat
  | some (.number text) =>
    if text.head? = some chMinus then none else readDecimal wordMax text
  | _ => none

/-- `dcc_json_string`. -/
def jsonString : Option Value → Option Bytes
  | some (.string text) => some text
  | _ => none

/-- `isspace` in the C locale. -/
def isSpace (c : UInt8) : Bool := c == 0x20 || (0x09 ≤ c && c ≤ 0x0d)

/-- `dcc_command_registry_parse_u64_text`: `strtoull` over the whole text.  A minus negates
modulo the word size; a number that does not fit is refused. -/
def parseU64Text (text : Bytes) : Option Nat :=
  let p := text.dropWhile isSpace
  let negative := p.head? == some chMinus
  let q := if p.head? = some chMinus ∨ p.head? = some chPlus then p.drop 1 else p
  (readDecimal wordMax q).map fun value => if negative then (wordSize - value) % wordSize else value

/-- `dcc_command_registry_json_snowflake`. -/
def jsonSnowflake (json : Option Value) : UInt64 :=
  match jsonU64 json with
  | some value => UInt64.ofNat value
  | none => UInt64.ofNat (((jsonString json).bind parseU64Text).getD 0)

/-- The type of a remote command: a number, or else a chat command. -/
def jsonType (json : Value) : UInt32 :=
  match jsonU64 (objectGet json (asciiText "type")) with
  | some value => UInt32.ofNat value
  | none => chatInput

/-! ## The canonical text -/

/-- `dcc_command_registry_append_remote_member`: a null member is left out. -/
def remoteMember : Option Value → Option Piece
  | none => none
  | some .null => none
  | some json => some (.value json)

/-- A string that is not empty. -/
def nonEmptyString : Value → Bool
  | .string text => text != []
  | _ => false

/-- `dcc_command_registry_json_array_nonempty`. -/
def arrayNonempty : Value → Bool
  | .array items => !items.isEmpty
  | _ => false

/-- The members in the order of `dcc_command_registry_remote_canonical_json`. -/
def remoteFields (json : Value) : List (Bytes × Option Piece) :=
  let get := fun key => objectGet json key
  let description := get (asciiText "description")
  let options := get (asciiText "options")
  [(asciiText "name", remoteMember (get (asciiText "name"))),
    (asciiText "name_localizations", remoteMember (get (asciiText "name_localizations"))),
    (asciiText "description",
      if jsonType json = chatInput ∨ description.any nonEmptyString then remoteMember description
      else none),
    (asciiText "description_localizations",
      remoteMember (get (asciiText "description_localizations"))),
    (asciiText "type", remoteMember (get (asciiText "type"))),
    (asciiText "options", if options.any arrayNonempty then remoteMember options else none),
    (asciiText "default_member_permissions",
      remoteMember (get (asciiText "default_member_permissions"))),
    (asciiText "dm_permission", remoteMember (get (asciiText "dm_permission"))),
    (asciiText "nsfw", remoteMember (get (asciiText "nsfw"))),
    (asciiText "integration_types", remoteMember (get (asciiText "integration_types"))),
    (asciiText "contexts", remoteMember (get (asciiText "contexts")))]

/-- `dcc_command_registry_remote_canonical_json`. -/
def remoteCanonicalJson (json : Value) : Bytes := (objectPiece (remoteFields json)).text

/-- `dcc_command_registry_remote_entry_from_json`. -/
def remoteEntryFromJson (json : Value) : Except Status RemoteEntry :=
  match json, jsonString (objectGet json (asciiText "name")) with
  | .object _, some name =>
    if name = [] then .error .json
    else
      .ok { size := 40
            id := jsonSnowflake (objectGet json (asciiText "id"))
            name := some name
            type := jsonType json
            canonicalJson := some (remoteCanonicalJson json) }
  | _, _ => .error .json

/-- The loop over the remote commands. -/
def remoteEntries : List Value → Except Status (List RemoteEntry)
  | [] => .ok []
  | json :: rest =>
    match remoteEntryFromJson json with
    | .error status => .error status
    | .ok entry =>
      match remoteEntries rest with
      | .error status => .error status
      | .ok entries => .ok (entry :: entries)

/-- `dcc_command_registry_remote_snapshot_parse_json`. -/
def remoteSnapshotParseJson (json : Bytes) : Except Status (List RemoteEntry) :=
  match parse json with
  | .error status => .error status
  | .ok (.array trees) => remoteEntries trees
  | .ok _ => .error .json

/-! ## The members that are kept -/

/-- `null`. -/
def isNull : Value → Bool
  | .null => true
  | _ => false

/-- A member that the canonical text leaves out: a null, a description that is no text of a
command that is no chat command, and options that are no list or an empty one. -/
def dropped (json : Value) (key : Bytes) (v : Value) : Bool :=
  isNull v || (key == asciiText "description" && jsonType json != chatInput && !nonEmptyString v) ||
    (key == asciiText "options" && !arrayNonempty v)

/-- The member that the canonical text keeps. -/
def kept (json : Value) (key : Bytes) : Option Value :=
  (objectGet json key).filter fun v => !dropped json key v

theorem remoteMember_eq (member : Option Value) :
    remoteMember member = (member.filter fun v => !isNull v).map Piece.value := by
  cases member with
  | none => rfl
  | some v => cases v <;> rfl

variable {key : Bytes}

theorem kept_of_ne (hdescription : key ≠ asciiText "description")
    (hoptions : key ≠ asciiText "options") (json : Value) :
    (kept json key).map Piece.value = remoteMember (objectGet json key) := by
  have hdropped : ∀ v, dropped json key v = isNull v := by
    intro v
    rw [dropped, beq_false_of_ne hdescription, beq_false_of_ne hoptions]
    simp
  simp only [remoteMember_eq, kept, hdropped]

theorem kept_description (json : Value) :
    (kept json (asciiText "description")).map Piece.value = if jsonType json = chatInput ∨
          (objectGet json (asciiText "description")).any nonEmptyString then
        remoteMember (objectGet json (asciiText "description"))
      else none := by
  have hne : (asciiText "description" == asciiText "options") = false := by decide
  rw [remoteMember_eq, kept]
  cases objectGet json (asciiText "description") with
  | none => simp
  | some v =>
    by_cases htype : jsonType json = chatInput
    · simp [dropped, htype, hne, Option.filter_some]
    · have htype' : (jsonType json != chatInput) = true := bne_iff_ne.mpr htype
      cases v <;> simp [dropped, htype, htype', hne, nonEmptyString, isNull, Option.filter_some]
      split <;> simp_all

theorem kept_options (json : Value) :
    (kept json (asciiText "options")).map Piece.value =
      if (objectGet json (asciiText "options")).any arrayNonempty then
        remoteMember (objectGet json (asciiText "options"))
      else none := by
  have hne : (asciiText "options" == asciiText "description") = false := by decide
  rw [remoteMember_eq, kept]
  cases objectGet json (asciiText "options") with
  | none => simp
  | some v =>
    cases v <;> simp [dropped, hne, arrayNonempty, isNull, Option.filter_some]
    split <;> simp_all

/-- **The members of the canonical text are the kept ones.** -/
theorem remoteFields_eq (json : Value) :
    remoteFields json = comparedKeys.map fun key => (key, (kept json key).map Piece.value) := by
  simp only [comparedKeys, List.map_cons, List.map_nil, kept_description, kept_options]
  rw [kept_of_ne (by decide) (by decide), kept_of_ne (by decide) (by decide),
    kept_of_ne (by decide) (by decide), kept_of_ne (by decide) (by decide),
    kept_of_ne (by decide) (by decide), kept_of_ne (by decide) (by decide),
    kept_of_ne (by decide) (by decide), kept_of_ne (by decide) (by decide),
    kept_of_ne (by decide) (by decide)]
  rfl

/-! ## Objects made of fields -/

variable {fields : List (Bytes × Option Value)}

theorem objectGet_present (hkeys : (fields.map Prod.fst).Nodup) {member : Option Value}
    (hmem : (key, member) ∈ fields) : objectGet (.object (present fields)) key = member := by
  rw [objectGet]
  induction fields with
  | nil => cases hmem
  | cons field fields ih =>
    rw [List.map_cons, List.nodup_cons] at hkeys
    obtain ⟨own, value⟩ := field
    rcases List.mem_cons.mp hmem with heq | htail
    · cases heq
      cases member with
      | none =>
        have hnone : ((present fields).find? fun entry => entry.1 == key) = none := by
          rw [List.find?_eq_none]
          intro entry hentry hsame
          have hfield := List.mem_map_of_mem (f := Prod.fst) (mem_present.mp hentry)
          rw [beq_iff_eq.mp hsame] at hfield
          exact hkeys.1 hfield
        simpa [present] using hnone
      | some v => simp [present]
    · have hother : own ≠ key := by
        intro hsame
        have hfield := List.mem_map_of_mem (f := Prod.fst) htail
        exact hkeys.1 (hsame ▸ hfield)
      have hrest := ih hkeys.2 htail
      cases value with
      | none => simpa [present] using hrest
      | some v => simpa [present, hother] using hrest

theorem present_map {α β : Type} (f : α → β) (fields : List (Bytes × Option α)) :
    present (fields.map fun field => (field.1, field.2.map f)) =
      (present fields).map fun entry => (entry.1, f entry.2) := by
  induction fields with
  | nil => rfl
  | cons field fields ih =>
    obtain ⟨key, value⟩ := field
    cases value with
    | none => simpa [present] using ih
    | some v => simpa [present] using ih

theorem tree_objectPiece (fields : List (Bytes × Option Piece)) :
    (objectPiece fields).tree =
      .object (present (fields.map fun field => (field.1, field.2.map Piece.tree))) := by
  rw [objectPiece, Piece.tree, Piece.entryTrees_eq_map, present_map]

theorem text_objectPiece (hkeys : (fields.map Prod.fst).all asciiKey = true) :
    (objectPiece (fields.map fun field => (field.1, field.2.map Piece.value))).text =
      appendJsonValue (.object (present fields)) := by
  have hmember : ∀ entry ∈ present fields, memberText entry.1 (appendJsonValue entry.2) =
      memberText (entry.1.flatMap escapeByte) (appendJsonValue entry.2) := by
    intro entry hentry
    have hmem := List.mem_map_of_mem (f := Prod.fst) (mem_present.mp hentry)
    rw [(plainKey_of_asciiKey (List.all_eq_true.mp hkeys _ hmem)).2]
  rw [objectPiece, Piece.text, Piece.entryTexts_eq_map, present_map, List.map_map, appendJsonValue,
    appendJsonEntries_eq_map, ← List.map_congr_left hmember]
  rfl

/-! ## Payload against canonical text -/

/-- The members that the canonical text is made of. -/
def keptFields (json : Value) : List (Bytes × Option Value) :=
  comparedKeys.map fun key => (key, kept json key)

theorem keptFields_keys (json : Value) : (keptFields json).map Prod.fst = comparedKeys := rfl

theorem comparedKeys_nodup : comparedKeys.Nodup := by decide

theorem remoteCanonicalJson_eq (json : Value) :
    remoteCanonicalJson json = appendJsonValue (.object (present (keptFields json))) := by
  rw [← text_objectPiece (keptFields_keys json ▸ comparedKeys_ascii), remoteCanonicalJson,
    remoteFields_eq, keptFields, List.map_map]
  rfl

theorem readable_of_objectGet {json v : Value} (hjson : Readable json)
    (hget : objectGet json key = some v) : Readable v := by
  cases hjson with
  | object _ hentries =>
    rw [objectGet] at hget
    obtain ⟨entry, hfind, rfl⟩ := Option.map_eq_some_iff.mp hget
    exact hentries entry (List.mem_of_find?_eq_some hfind)
  | _ => cases hget

theorem objectGet_of_kept {json v : Value} (h : kept json key = some v) :
    objectGet json key = some v ∧ dropped json key v = false := by
  obtain ⟨hget, hkeep⟩ := Option.filter_eq_some_iff.mp h
  exact ⟨hget, by simpa using hkeep⟩

theorem readable_keptFields {json : Value} (h : Readable json) :
    Readable (.object (present (keptFields json))) := by
  refine Readable.object (fun entry hentry => ?_) (fun entry hentry => ?_)
  · have hmem := List.mem_map_of_mem (f := Prod.fst) (mem_present.mp hentry)
    exact (plainKey_of_asciiKey (List.all_eq_true.mp comparedKeys_ascii _ hmem)).1
  · obtain ⟨key, _, hfield⟩ := List.mem_map.mp (mem_present.mp hentry)
    have hkept : kept json key = some entry.2 := (Prod.mk.inj hfield).2
    exact readable_of_objectGet h (objectGet_of_kept hkept).1

/-- The fields of a payload, as values. -/
def payloadFields (command : Builder Members) (options : Option Piece) :
    List (Bytes × Option Value) :=
  (commandFields command options).map fun field => (field.1, field.2.map Piece.tree)

variable {command : Builder Members}

theorem commandPiece_eq_ok {piece : Piece} (h : commandPiece command = .ok piece) :
    ∃ options, commandOptions command.members = .ok options ∧
      piece = objectPiece (commandFields command options) := by
  unfold commandPiece at h
  split at h
  · rename_i options hoptions
    cases h
    exact ⟨options, hoptions, rfl⟩
  · cases h

/-- **The payload of a command and the text of a remote command.**  They are the same bytes
exactly when every raw text in the payload is compact and every member of the payload is
the member that is kept of the remote command. -/
theorem payload_eq_canonical_iff {piece : Piece} {json : Value}
    (hpiece : commandPiece command = .ok piece) (hcommand : command.Json)
    (hjson : Readable json) :
    piece.text = remoteCanonicalJson json ↔ (∀ text ∈ piece.raws, compactText text = true) ∧
        ∀ key ∈ comparedKeys, objectGet piece.tree key = kept json key := by
  have hwell := commandPiece_wellFormed hpiece hcommand
  obtain ⟨options, _, rfl⟩ := commandPiece_eq_ok hpiece
  have htree : (objectPiece (commandFields command options)).tree =
      .object (present (payloadFields command options)) := tree_objectPiece _
  have hkeys : ((payloadFields command options).map Prod.fst).Nodup := comparedKeys_nodup
  rw [remoteCanonicalJson_eq, hwell.compact_iff (readable_keptFields hjson), htree, and_comm]
  refine and_congr_right fun _ => ⟨fun heq key hkey => ?_, fun hget => ?_⟩
  · rw [Value.object.inj heq]
    exact objectGet_present (keptFields_keys json ▸ comparedKeys_nodup)
      (List.mem_map.mpr ⟨key, hkey, rfl⟩)
  · congr 2
    calc payloadFields command options
        = (payloadFields command options).map fun field => (field.1, kept json field.1) := by
          conv => lhs; rw [← List.map_id' (payloadFields command options)]
          refine List.map_congr_left fun field hfield => ?_
          have hkey : field.1 ∈ comparedKeys := List.mem_map_of_mem (f := Prod.fst) hfield
          rw [← hget field.1 hkey, objectGet_present hkeys hfield]
      _ = keptFields json := rfl

end Dcc.Commands
