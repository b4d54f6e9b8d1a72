import Dcc.Commands.Snapshot
import Mathlib.Algebra.Field.Rat
import Mathlib.Data.List.Forall2
import Mathlib.Data.List.Perm.Subperm

/-!
# A second synchronization

After a command was submitted, the remote side lists it: an object with the same JSON
values, spelled in its own way and with members of its own.  The plan calls the command
unchanged when the payload is, byte for byte, the canonical text of that object.

The payload copies what the caller spelled as JSON and writes null permissions, the
canonical text is compact and drops nulls.  So a command is recognized only when its
payload is `Clean`, and only where the object spells numbers and orders nested members as
the payload does (`SameSpelling`).

* `SameValue`, `Echoes`: when an object says the same as a payload;
* `sameText_iff`: when the plan takes an object for a command;
* `sync_idempotent_iff`: exactly when a command is classified as it should be, and when a
  synchronization has nothing to do.
-/

namespace Dcc.Commands

open Dcc.Json Dcc.Json.Grammar

/-! ## Values and their spellings -/

/-- The number of a list of digits. -/
def digitsValue (digits : Bytes) : Nat :=
  digits.foldl (fun value c => value * 10 + (c.toNat - 0x30)) 0

/-- The number that a JSON number stands for. -/
def numberValue (text : Bytes) : ℚ :=
  let p := if text.head? = some chMinus then text.drop 1 else text
  let integer := p.takeWhile isDigit
  let q := p.dropWhile isDigit
  let fraction := if q.head? = some chDot then (q.drop 1).takeWhile isDigit else []
  let r := if q.head? = some chDot then (q.drop 1).dropWhile isDigit else q
  let e := r.drop 1
  let exponent : ℤ :=
    if e.head? = some chMinus then -(digitsValue (e.drop 1))
    else if e.head? = some chPlus then digitsValue (e.drop 1)
    else digitsValue e
  let magnitude : ℚ :=
    digitsValue (integer ++ fraction) * (10 : ℚ) ^ (exponent - fraction.length)
  if text.head? = some chMinus then -magnitude else magnitude

example : numberValue (asciiText "-1.50e2") = -150 := by decide +kernel

mutual

/-- Two values are the same: numbers by what they stand for, objects in any order of their
members. -/
inductive SameValue : Value → Value → Prop
  | null : SameValue .null .null
  | bool (boolean : Bool) : SameValue (.bool boolean) (.bool boolean)
  | number {text other : Bytes} (h : numberValue text = numberValue other) :
      SameValue (.number text) (.number other)
  | string (text : Bytes) : SameValue (.string text) (.string text)
  | array {items others : List Value} (h : SameItems items others) :
      SameValue (.array items) (.array others)
  | object {entries ordered others : List (Bytes × Value)} (hperm : entries.Perm ordered)
      (h : SameEntries ordered others) : SameValue (.object entries) (.object others)

inductive SameItems : List Value → List Value → Prop
  | nil : SameItems [] []
  | cons {v w : Value} {vs ws : List Value} (h : SameValue v w) (hrest : SameItems vs ws) :
      SameItems (v :: vs) (w :: ws)

inductive SameEntries : List (Bytes × Value) → List (Bytes × Value) → Prop
  | nil : SameEntries [] []
  | cons {key : Bytes} {v w : Value} {vs ws : List (Bytes × Value)} (h : SameValue v w)
      (hrest : SameEntries vs ws) : SameEntries ((key, v) :: vs) ((key, w) :: ws)

end

/-- A member that is in neither value, or the same in both. -/
inductive SameMember : Option Value → Option Value → Prop
  | absent : SameMember none none
  | present {v w : Value} (h : SameValue v w) : SameMember (some v) (some w)

/-- The object says the same as the payload in every member that the registry compares. -/
def Echoes (payload object : Value) : Prop :=
  ∀ key ∈ comparedKeys, SameMember (objectGet payload key) (objectGet object key)

/-- The object has the member as the payload has it, down to the spelling of numbers and
the order of nested members; or the payload does not have it and the canonical text leaves
out what the object has. -/
def SameSpelling (payload object : Value) : Prop :=
  ∀ key ∈ comparedKeys, objectGet object.terminated key = objectGet payload key ∨
    (objectGet payload key = none ∧ kept object.terminated key = none)

/-! ## Payloads that are recognized -/

/-- The texts in the payload that are copied as the caller spelled them. -/
def rawTexts (command : Builder Members) : List Bytes :=
  match commandPiece command with
  | .ok piece => piece.raws
  | .error _ => []

/-- The payload is its own canonical text: what it copies is compact, no member is null,
and options given as JSON are a list that is not empty. -/
structure Clean (command : Builder Members) : Prop where
  compact : ∀ text ∈ rawTexts command, compactText text = true
  permissions : ∀ permissions ∈ command.members.defaultMemberPermissions, permissions.null = 0
  nameLocalizations : ∀ text ∈ command.members.nameLocalizationsJson, ¬ Text .null text
  descriptionLocalizations :
    ∀ text ∈ command.members.descriptionLocalizationsJson, ¬ Text .null text
  options : ∀ text ∈ command.members.optionsJson, ∃ v vs, Text (.array (v :: vs)) text
  integrationTypes : ∀ text ∈ command.members.integrationTypesJson, ¬ Text .null text
  contexts : ∀ text ∈ command.members.contextsJson, ¬ Text .null text

/-- A member that no canonical text leaves out. -/
def Lasting (key : Bytes) (v : Value) : Prop :=
  isNull v = false ∧ (key = asciiText "description" → nonEmptyString v = true) ∧
    (key = asciiText "options" → arrayNonempty v = true)

variable {key : Bytes}

theorem dropped_of_lasting {v : Value} (h : Lasting key v) (json : Value) :
    dropped json key v = false := by
  obtain ⟨hnull, hdescription, hoptions⟩ := h
  rw [dropped, hnull]
  by_cases hd : key = asciiText "description"
  · have hne : (key == asciiText "options") = false := by
      rw [hd]
      decide
    simp [hdescription hd, hne]
  · by_cases ho : key = asciiText "options"
    · simp [hoptions ho, beq_false_of_ne hd]
    · simp [beq_false_of_ne hd, beq_false_of_ne ho]

theorem lasting_of_kept {v json : Value} (h : kept json key = some v)
    (hdescription : key = asciiText "description" → nonEmptyString v = true) : Lasting key v := by
  have hdropped := (objectGet_of_kept h).2
  simp only [dropped, Bool.or_eq_false_iff] at hdropped
  refine ⟨hdropped.1.1, hdescription, fun hoptions => ?_⟩
  have hkeep := hdropped.2
  rw [hoptions] at hkeep
  simpa using hkeep

theorem kept_iff_sameSpelling {payload object : Value}
    (hdescription : ∀ v ∈ objectGet payload (asciiText "description"), nonEmptyString v = true) :
    (∀ key ∈ comparedKeys, objectGet payload key = kept object.terminated key) ↔
      (∀ key ∈ comparedKeys, ∀ v ∈ objectGet payload key, Lasting key v) ∧
        SameSpelling payload object := by
  constructor
  · intro hkept
    refine ⟨fun key hkey v hv => ?_, fun key hkey => ?_⟩
    · have hsome : kept object.terminated key = some v := by rw [← hkept key hkey]; exact hv
      exact lasting_of_kept hsome fun hd => hdescription v (hd ▸ hv)
    · cases hpayload : objectGet payload key with
      | none => exact .inr ⟨rfl, by rw [← hkept key hkey, hpayload]⟩
      | some v =>
        have hsome : kept object.terminated key = some v := by rw [← hkept key hkey, hpayload]
        exact .inl (objectGet_of_kept hsome).1
  · intro h key hkey
    obtain ⟨hlasting, hspelling⟩ := h
    rcases hspelling key hkey with hget | ⟨hnone, hkept⟩
    · cases hpayload : objectGet payload key with
      | none => rw [kept, hget, hpayload]; rfl
      | some v =>
        have hkeep := dropped_of_lasting (hlasting key hkey v hpayload) object.terminated
        rw [kept, hget, hpayload, Option.filter_some, hkeep]
        rfl
    · rw [hnone, hkept]

/-! ## Which members of a payload last -/

variable {command : Builder Members}

variable {text : Bytes}

theorem description_nonempty (hvalid : membersValid command = true)
    (htext : command.members.description = some text) : text ≠ [] := by
  simp only [membersValid, Bool.and_eq_true] at hvalid
  obtain ⟨_, hrule⟩ := hvalid
  split at hrule
  · rw [htext] at hrule
    simpa using hrule
  · rw [htext] at hrule
    simp at hrule

theorem lasting_of_ne (hdescription : key ≠ asciiText "description")
    (hoptions : key ≠ asciiText "options") (v : Value) : Lasting key v ↔ isNull v = false :=
  ⟨fun h => h.1, fun h => ⟨h, fun hd => absurd hd hdescription, fun ho => absurd ho hoptions⟩⟩

theorem isNull_rawTree (h : IsJson text) :
    isNull (Piece.rawTree text) = false ↔ ¬ Text .null text := by
  obtain ⟨v, hv⟩ := h
  rw [Piece.text_rawTree hv]
  constructor
  · intro hnot hnull
    rw [text_unique hv hnull] at hnot
    cases hnot
  · intro hnot
    cases v with
    | null => exact absurd hv hnot
    | _ => rfl

theorem arrayNonempty_rawTree (h : IsJson text) :
    Lasting (asciiText "options") (Piece.rawTree text) ↔ ∃ v vs, Text (.array (v :: vs)) text := by
  obtain ⟨u, hu⟩ := h
  rw [Piece.text_rawTree hu]
  constructor
  · intro hlasting
    have harray := hlasting.2.2 rfl
    cases u with
    | array items =>
      cases items with
      | nil => cases harray
      | cons v vs => exact ⟨v, vs, hu⟩
    | _ => cases harray
  · intro hlist
    obtain ⟨v, vs, htext⟩ := hlist
    rw [text_unique hu htext]
    exact ⟨rfl, fun hd => absurd hd (by decide), fun _ => rfl⟩

theorem optionPieces_length {options : List OptionBuilder} {pieces : List Piece}
    (h : optionPieces options = .ok pieces) : pieces.length = options.length := by
  induction options generalizing pieces with
  | nil =>
    rw [optionPieces] at h
    cases h
    rfl
  | cons option options ih =>
    rw [optionPieces] at h
    split at h
    · rename_i hfirst hrest
      cases h
      rw [List.length_cons, List.length_cons, ih hrest]
    · cases h

theorem commandOptions_cases {members : Members} {options : Option Piece}
    (h : commandOptions members = .ok options) :
    (∃ text, members.optionsJson = some text ∧ options = some (.raw text)) ∨
    (members.optionsJson = none ∧ ∀ piece ∈ options, ∃ item items,
      piece = .array (item :: items)) := by
  cases hjson : members.optionsJson with
  | some text =>
    refine .inl ⟨text, rfl, ?_⟩
    unfold commandOptions at h
    split at h <;> simp only [hjson, optionsMember] at h <;> cases h <;> rfl
  | none =>
    refine .inr ⟨rfl, fun piece hpiece => ?_⟩
    unfold commandOptions at h
    split at h
    · rename_i structured hstructured
      simp only [hjson, optionsMember] at h
      split at h
      · cases h
        cases hpiece
      · rename_i hcount
        cases hpieces : optionPieces structured with
        | error status =>
          rw [hpieces] at h
          cases h
        | ok pieces =>
          rw [hpieces] at h
          cases h
          cases hpiece
          have hlength := optionPieces_length hpieces
          cases pieces with
          | nil => exact absurd hlength.symm hcount
          | cons item items => exact ⟨item, items, rfl⟩
    · simp only [hjson, optionsMember] at h
      cases h
      cases hpiece

theorem lasting_options {options : Option Piece}
    (hoptions : commandOptions command.members = .ok options) (hcommand : command.Json) :
    (∀ v ∈ options.map Piece.tree, Lasting (asciiText "options") v) ↔
      ∀ text ∈ command.members.optionsJson, ∃ v vs, Text (.array (v :: vs)) text := by
  rcases commandOptions_cases hoptions with ⟨text, hjson, rfl⟩ | ⟨hjson, harray⟩
  · rw [hjson]
    simp only [Option.map_some, Option.mem_some_iff, forall_eq', Piece.tree]
    exact arrayNonempty_rawTree (hcommand.optionsJson text hjson)
  · rw [hjson]
    refine ⟨fun _ text htext => by simp at htext, fun _ v hv => ?_⟩
    obtain ⟨piece, hpiece, rfl⟩ := Option.map_eq_some_iff.mp hv
    obtain ⟨item, items, rfl⟩ := harray piece hpiece
    exact ⟨rfl, fun hd => absurd hd (by decide), fun _ => rfl⟩

theorem forall_member_iff {options : Option Piece} (P : Bytes → Value → Prop) :
    (∀ key ∈ comparedKeys,
        ∀ v ∈ objectGet (objectPiece (commandFields command options)).tree key, P key v) ↔
      ∀ field ∈ payloadFields command options, ∀ v ∈ field.2, P field.1 v := by
  have hkeys : ((payloadFields command options).map Prod.fst).Nodup := comparedKeys_nodup
  rw [tree_objectPiece]
  constructor
  · intro h field hfield v hv
    refine h field.1 (List.mem_map_of_mem (f := Prod.fst) hfield) v ?_
    exact (objectGet_present hkeys hfield).trans hv
  · intro h key hkey v hv
    obtain ⟨field, hfield, rfl⟩ := List.mem_map.mp
      (show key ∈ (payloadFields command options).map Prod.fst from hkey)
    have hget : objectGet (.object (present (payloadFields command options))) field.1 = field.2 :=
      objectGet_present hkeys hfield
    exact h field hfield v (hget.symm.trans hv)

theorem lasting_description (hvalid : membersValid command = true) :
    ∀ v ∈ (command.members.description.map stringPiece).map Piece.tree,
      Lasting (asciiText "description") v := by
  intro v hv
  obtain ⟨piece, hpiece, rfl⟩ := Option.map_eq_some_iff.mp hv
  obtain ⟨text, htext, rfl⟩ := Option.map_eq_some_iff.mp hpiece
  refine ⟨rfl, fun _ => ?_, fun ho => absurd ho (by decide)⟩
  exact bne_iff_ne.mpr (description_nonempty hvalid htext)

/-- The members of a payload that last, named one by one. -/
theorem lasting_iff {options : Option Piece}
    (hoptions : commandOptions command.members = .ok options) (hcommand : command.Json)
    (hvalid : membersValid command = true) :
    (∀ field ∈ payloadFields command options, ∀ v ∈ field.2, Lasting field.1 v) ↔
      (∀ text ∈ command.members.nameLocalizationsJson, ¬ Text .null text) ∧
      (∀ text ∈ command.members.descriptionLocalizationsJson, ¬ Text .null text) ∧
      (∀ text ∈ command.members.optionsJson, ∃ v vs, Text (.array (v :: vs)) text) ∧
      (∀ permissions ∈ command.members.defaultMemberPermissions, permissions.null = 0) ∧
      (∀ text ∈ command.members.integrationTypesJson, ¬ Text .null text) ∧
      ∀ text ∈ command.members.contextsJson, ¬ Text .null text := by
  -- a raw member with no rule of its own
  have hraw : ∀ {key : Bytes} {member : Option Bytes}, key ≠ asciiText "description" →
      key ≠ asciiText "options" → (∀ text ∈ member, IsJson text) →
      ((∀ v ∈ (member.map Piece.raw).map Piece.tree, Lasting key v) ↔
        ∀ text ∈ member, ¬ Text .null text) := by
    intro key member hd ho hjson
    cases member with
    | none => simp
    | some text =>
      simp only [Option.map_some, Option.mem_some_iff, forall_eq', Piece.tree]
      rw [lasting_of_ne hd ho, isNull_rawTree (hjson text rfl)]
  -- a written member that is not null
  have hwritten : ∀ {α : Type} {key : Bytes} {member : Option α} {f : α → Piece},
      key ≠ asciiText "description" → key ≠ asciiText "options" →
      (∀ x, isNull (f x).tree = false) → ∀ v ∈ (member.map f).map Piece.tree, Lasting key v := by
    intro α key member f hd ho hnull v hv
    rw [lasting_of_ne hd ho]
    obtain ⟨piece, hpiece, rfl⟩ := Option.map_eq_some_iff.mp hv
    obtain ⟨x, _, rfl⟩ := Option.map_eq_some_iff.mp hpiece
    exact hnull x
  have hpermissions :
      (∀ v ∈ (command.members.defaultMemberPermissions.map permissionsPiece).map Piece.tree,
        Lasting (asciiText "default_member_permissions") v) ↔
      ∀ permissions ∈ command.members.defaultMemberPermissions, permissions.null = 0 := by
    cases command.members.defaultMemberPermissions with
    | none => simp
    | some permissions =>
      simp only [Option.map_some, Option.mem_some_iff, forall_eq']
      rw [lasting_of_ne (by decide) (by decide), permissionsPiece]
      by_cases hnull : permissions.null = 0
      · simp [hnull, stringPiece, Piece.tree, isNull]
      · simp [hnull, Piece.tree, isNull]
  simp only [payloadFields, commandFields, List.map_cons, List.map_nil, List.mem_cons,
    List.not_mem_nil, or_false, forall_eq_or_imp, forall_eq]
  rw [hraw (by decide) (by decide) hcommand.nameLocalizations,
    hraw (by decide) (by decide) hcommand.descriptionLocalizations,
    lasting_options hoptions hcommand, hpermissions,
    hraw (by decide) (by decide) hcommand.integrationTypes,
    hraw (by decide) (by decide) hcommand.contexts]
  constructor
  · intro h
    exact ⟨h.2.1, h.2.2.2.1, h.2.2.2.2.2.1, h.2.2.2.2.2.2.1, h.2.2.2.2.2.2.2.2.2.1,
      h.2.2.2.2.2.2.2.2.2.2⟩
  · intro h
    exact ⟨hwritten (by decide) (by decide) fun _ => rfl, h.1, lasting_description hvalid, h.2.1,
      hwritten (by decide) (by decide) fun _ => rfl, h.2.2.1, h.2.2.2.1,
      hwritten (by decide) (by decide) fun _ => rfl,
      hwritten (by decide) (by decide) fun _ => rfl, h.2.2.2.2.1, h.2.2.2.2.2⟩

variable {object : Value}

/-- **When the plan takes an object for a command.**  The payload is the canonical text of
the object exactly when the payload is clean and the object has its spelling. -/
theorem sameText_iff {piece : Piece}
    (hpiece : commandPiece command = .ok piece) (hcommand : command.Json)
    (hvalid : membersValid command = true) (hobject : Readable object.terminated) :
    piece.text = remoteCanonicalJson object.terminated ↔
      Clean command ∧ SameSpelling piece.tree object := by
  have hraws : rawTexts command = piece.raws := by rw [rawTexts, hpiece]
  rw [payload_eq_canonical_iff hpiece hcommand hobject]
  obtain ⟨options, hoptions, rfl⟩ := commandPiece_eq_ok hpiece
  have hdescription : ∀ v ∈ objectGet (objectPiece (commandFields command options)).tree
      (asciiText "description"), nonEmptyString v = true := by
    intro v hv
    have hfield : (asciiText "description",
        (command.members.description.map stringPiece).map Piece.tree) ∈
          payloadFields command options := by
      simp [payloadFields, commandFields]
    have hget := objectGet_present (show ((payloadFields command options).map Prod.fst).Nodup
      from comparedKeys_nodup) hfield
    rw [tree_objectPiece] at hv
    exact (lasting_description hvalid v (hget.symm.trans hv)).2.1 rfl
  rw [kept_iff_sameSpelling hdescription, forall_member_iff, lasting_iff hoptions hcommand hvalid,
    ← hraws]
  constructor
  · intro h
    obtain ⟨hcompact, ⟨hname, hdesc, hopts, hperm, hinteg, hcontexts⟩, hspelling⟩ := h
    exact ⟨⟨hcompact, hperm, hname, hdesc, hopts, hinteg, hcontexts⟩, hspelling⟩
  · intro h
    obtain ⟨⟨hcompact, hperm, hname, hdesc, hopts, hinteg, hcontexts⟩, hspelling⟩ := h
    exact ⟨hcompact, ⟨hname, hdesc, hopts, hperm, hinteg, hcontexts⟩, hspelling⟩

/-! ## Registries, snapshots and plans -/

/-- The registries that calls of `dcc_command_registry_add_builder` make. -/
inductive Registered : Registry Members → Prop
  | init : Registered Registry.init
  | add {registry : Registry Members} (h : Registered registry) (memory : Bool)
      (command : Builder Members) : Registered (registry.add serializer memory command).1

theorem valid_of_add {registry : Registry Members} {memory : Bool}
    (h : (registry.add serializer memory command).2 = .ok) :
    validateCreate serializer command = .ok := by
  unfold Registry.add at h
  by_cases hvalid : validateCreate serializer command = .ok
  · exact hvalid
  · simp [hvalid] at h

theorem Registered.valid {registry : Registry Members} (h : Registered registry) :
    ∀ command ∈ registry.entries, validateCreate serializer command = .ok := by
  induction h with
  | init => simp [Registry.init]
  | @add registry _ memory command ih =>
    rcases Registry.add_entries registry serializer memory command with
      ⟨hok, hentries⟩ | ⟨_, hsame⟩
    · rw [hentries]
      intro other hother
      rcases List.mem_append.mp hother with hold | hnew
      · exact ih other hold
      · rw [List.mem_singleton.mp hnew]
        exact valid_of_add hok
    · rw [hsame]
      exact ih

theorem membersValid_of_validateCreate
    (h : validateCreate serializer command = .ok) : membersValid command = true := by
  unfold validateCreate at h
  split at h
  · cases h
  · split at h
    · cases h
    · split at h
      · cases h
      · split at h
        · rename_i hmembers
          exact hmembers
        · cases h

/-- The object has the name and the type of the command, as the registry reads them. -/
def namesCommand (command : Builder Members) (object : Value) : Bool :=
  jsonString (objectGet object.terminated (asciiText "name")) == command.name &&
    jsonType object.terminated == builderType command

variable {entry : RemoteEntry}

theorem remoteEntryFromJson_ok {json : Value} (h : remoteEntryFromJson json = .ok entry) :
    ∃ name, jsonString (objectGet json (asciiText "name")) = some name ∧
      remoteName entry = some name ∧ remoteType entry = jsonType json ∧
      remoteJson entry = some (remoteCanonicalJson json) := by
  unfold remoteEntryFromJson at h
  split at h
  · rename_i name hname
    split at h
    · cases h
    · cases h
      exact ⟨name, hname, rfl, rfl, rfl⟩
  · cases h

theorem remoteMatches_eq (hnamed : command.Named)
    (h : remoteEntryFromJson object.terminated = .ok entry) :
    remoteMatches command entry = namesCommand command object := by
  obtain ⟨name, hname, hremote, htype, _⟩ := remoteEntryFromJson_ok h
  obtain ⟨own, hown, _⟩ := hnamed
  simp [remoteMatches, namesCommand, hremote, hown, hname, htype]

theorem remoteEntries_ok {trees : List Value} {entries : List RemoteEntry}
    (h : remoteEntries trees = .ok entries) :
    List.Forall₂ (fun tree entry => remoteEntryFromJson tree = .ok entry) trees entries := by
  induction trees generalizing entries with
  | nil =>
    cases h
    exact .nil
  | cons tree trees ih =>
    rw [remoteEntries] at h
    split at h
    · cases h
    · rename_i entry hentry
      split at h
      · cases h
      · rename_i rest hrest
        cases h
        exact .cons hentry (ih hrest)

/-- **The remote commands of a snapshot are those of its objects, in order.** -/
theorem remoteSnapshotParseJson_ok {snapshot : Bytes} {objects : List Value}
    {remote : List RemoteEntry} (htext : Text (.array objects) snapshot)
    (h : remoteSnapshotParseJson snapshot = .ok remote) :
    List.Forall₂ (fun object entry => remoteEntryFromJson object.terminated = .ok entry)
      objects remote := by
  have hparse := (parse_ok_iff snapshot _).mpr ⟨_, htext, rfl⟩
  rw [Value.terminated, terminatedItems_eq_map] at hparse
  rw [remoteSnapshotParseJson, hparse] at h
  exact List.forall₂_map_left_iff.mp (remoteEntries_ok h)

theorem findIdx?_bind_getElem? {α : Type} (p : α → Bool) (xs : List α) :
    ((xs.findIdx? p).bind fun found => xs[found]?.map (found, ·)).map Prod.snd = xs.find? p := by
  induction xs with
  | nil => rfl
  | cons x xs ih =>
    by_cases hx : p x = true
    · simp [List.findIdx?_cons, hx]
    · rw [List.find?_cons_of_neg hx, ← ih, List.findIdx?_cons, if_neg hx]
      cases xs.findIdx? p with
      | none => rfl
      | some k => simp

section

variable (hnamed : command.Named) {objects : List Value} {remote : List RemoteEntry}
  (h : List.Forall₂ (fun object entry => remoteEntryFromJson object.terminated = .ok entry)
    objects remote)
include hnamed h

theorem find?_of_forall₂ :
    (remote.find? (remoteMatches command)).map remoteJson =
      (objects.find? (namesCommand command)).map fun object =>
        some (remoteCanonicalJson object.terminated) := by
  induction h with
  | nil => rfl
  | @cons object entry objects remote hentry _ ih =>
    have hsame := remoteMatches_eq hnamed hentry
    by_cases hmatch : namesCommand command object = true
    · rw [List.find?_cons_of_pos (hsame.trans hmatch), List.find?_cons_of_pos hmatch]
      obtain ⟨_, _, _, _, hjson⟩ := remoteEntryFromJson_ok hentry
      simp [hjson]
    · rw [List.find?_cons_of_neg (by rw [hsame]; exact hmatch), List.find?_cons_of_neg hmatch, ih]

/-- **The action of a local command**: the first object with its name and type is compared
byte for byte. -/
theorem localDiff_action (index : Nat) (json : Bytes) :
    (localDiff remote index command json).action = match objects.find? (namesCommand command) with
      | none => .create
      | some object =>
        if json = remoteCanonicalJson object.terminated then .noop else .update := by
  have hfind := find?_of_forall₂ hnamed h
  rw [← findIdx?_bind_getElem?] at hfind
  unfold localDiff
  rw [findRemote]
  cases hfound : (remote.findIdx? (remoteMatches command)).bind
      fun found => remote[found]?.map (found, ·) with
  | none =>
    rw [hfound] at hfind
    cases hobject : objects.find? (namesCommand command) with
    | none => rfl
    | some object => rw [hobject] at hfind; cases hfind
  | some found =>
    obtain ⟨k, entry⟩ := found
    rw [hfound] at hfind
    cases hobject : objects.find? (namesCommand command) with
    | none => rw [hobject] at hfind; cases hfind
    | some object =>
      rw [hobject] at hfind
      have hjson : remoteJson entry = some (remoteCanonicalJson object.terminated) :=
        Option.some.inj hfind
      simp only [hjson, Option.some.injEq, eq_comm]

end

/-! ## Idempotence -/

/-- What a synchronization should find: a command that some object echoes is a no-op, and a
command whose object says something else is an update. -/
def Idempotent (command : Builder Members) (payload : Value) (objects : List Value)
    (diff : Diff) : Prop :=
  (∀ object ∈ objects, Echoes payload object → diff.action = .noop) ∧
    ∀ object, objects.find? (namesCommand command) = some object → ¬ Echoes payload object →
      diff.action = .update

/-- When it does: a command that is echoed is clean, and the first object with its name and
type has the spelling of the payload; and an object that says something else does not
differ only in what the canonical text leaves out. -/
structure Recognized (command : Builder Members) (payload : Value) (objects : List Value) :
    Prop where
  echoed : (∃ object ∈ objects, Echoes payload object) →
    Clean command ∧ ∃ object, objects.find? (namesCommand command) = some object ∧
      SameSpelling payload object
  differs : ∀ object, objects.find? (namesCommand command) = some object →
    ¬ Echoes payload object → ¬ (Clean command ∧ SameSpelling payload object)

/-- The snapshot lists one object for each command, in any order, and echoes each of
them. -/
def EchoesAll (commands : List (Builder Members)) (objects : List Value) : Prop :=
  ∃ ordered, ordered.Perm commands ∧ List.Forall₂ (fun command object =>
    ∃ payload, Text payload (serializer.text command) ∧ Echoes payload object) ordered objects

theorem commandPiece_of_buildJson
    (h : serializer.buildJson command = .ok (serializer.text command)) :
    ∃ piece, commandPiece command = .ok piece ∧ serializer.text command = piece.text := by
  cases hpiece : commandPiece command with
  | error status =>
    have herror : serializer.buildJson command = .error status := by
      simp only [serializer, hpiece]
    rw [herror] at h
    cases h
  | ok piece =>
    refine ⟨piece, rfl, ?_⟩
    have hok : serializer.buildJson command = .ok piece.text := by simp only [serializer, hpiece]
    rw [Serializer.text, hok]

section Plans

variable {registry : Registry Members} (hregistered : Registered registry) {snapshot : Bytes}
  {objects : List Value} (hsnapshot : Text (.array objects) snapshot)
  {remote : List RemoteEntry} (hremote : remoteSnapshotParseJson snapshot = .ok remote)
  {memory : Nat → PushMemory} {options : Option Options} {plan : Plan}
  (hplan : buildPlan registry serializer memory options remote = .ok plan)

include hsnapshot in
theorem readable_object (hobject : object ∈ objects) :
    Readable object.terminated := by
  have hreadable : Readable (Value.array objects).terminated := Derives.readable hsnapshot
  rw [Value.terminated, terminatedItems_eq_map] at hreadable
  cases hreadable with
  | array h => exact h _ (List.mem_map_of_mem hobject)

include hregistered hsnapshot hremote hplan in
/-- What the plan says of a command whose members are JSON: its text is JSON, it is a no-op
exactly when the first object with its name and type is taken for it, and an update exactly
when there is such an object that is not. -/
theorem action_iff (hmem : command ∈ registry.entries) (hjson : command.Json) (index : Nat) :
    ∃ payload, Text payload (serializer.text command) ∧
      ((localDiff remote index command (serializer.text command)).action = .noop ↔
        Clean command ∧ ∃ object, objects.find? (namesCommand command) = some object ∧
          SameSpelling payload object) ∧
      ((localDiff remote index command (serializer.text command)).action = .update ↔
        ∃ object, objects.find? (namesCommand command) = some object ∧
          ¬ (Clean command ∧ SameSpelling payload object)) := by
  obtain ⟨_, hbuilt, _⟩ := buildPlan_ok hplan
  obtain ⟨piece, hpiece, htext⟩ := commandPiece_of_buildJson (hbuilt command hmem)
  have hvalid := membersValid_of_validateCreate (hregistered.valid command hmem)
  have hspells : Text piece.tree (serializer.text command) := by
    rw [htext]
    exact (commandPiece_wellFormed hpiece hjson).derives
  refine ⟨piece.tree, hspells, ?_⟩
  rw [localDiff_action (registry.named command hmem) (remoteSnapshotParseJson_ok hsnapshot hremote)]
  cases hfind : objects.find? (namesCommand command) with
  | none => simp
  | some object =>
    have hsame := sameText_iff hpiece hjson hvalid
      (readable_object hsnapshot (List.mem_of_find?_eq_some hfind))
    rw [← htext] at hsame
    simp only [Option.some.injEq, exists_eq_left', ← hsame]
    split
    · rename_i heq
      simp [heq]
    · rename_i hne
      simp [hne]

include hplan in
theorem diff_of_command {index : Nat} (hcommand : registry.entries[index]? = some command) :
    plan.diffs[index]? = some (localDiff remote index command (serializer.text command)) := by
  obtain ⟨hdiffs, _⟩ := buildPlan_ok hplan
  have hlocal : (localDiffs serializer remote 0 registry.entries)[index]? =
      some (localDiff remote index command (serializer.text command)) := by
    rw [localDiffs, List.getElem?_map, List.getElem?_zipIdx, hcommand]
    simp
  rw [hdiffs, List.getElem?_append_left (List.getElem?_eq_some_iff.mp hlocal).1, hlocal]

include hsnapshot hremote in
theorem remoteHasLocal_of_found (hfound : ∀ command ∈ registry.entries, ∃ object,
      objects.find? (namesCommand command) = some object)
    (hlength : registry.entries.length = objects.length) :
    ∀ entry ∈ remote, remoteHasLocal registry.entries entry = true := by
  have hforall := remoteSnapshotParseJson_ok hsnapshot hremote
  have hsubset : registry.entries.map Builder.key ⊆ remote.map RemoteEntry.key := by
    intro key hkey
    obtain ⟨command, hcommand, rfl⟩ := List.mem_map.mp hkey
    have hnamed := registry.named command hcommand
    obtain ⟨object, hobject⟩ := hfound command hcommand
    have hfind := find?_of_forall₂ hnamed hforall
    rw [hobject] at hfind
    obtain ⟨entry, hentry, _⟩ := Option.map_eq_some_iff.mp hfind
    refine List.mem_map.mpr ⟨entry, List.mem_of_find?_eq_some hentry, ?_⟩
    exact (remoteMatches_iff hnamed entry).mp (List.find?_some hentry)
  -- as many distinct keys on both sides, so the keys are the same
  have hperm : (registry.entries.map Builder.key).Perm (remote.map RemoteEntry.key) := by
    refine (List.subperm_of_subset registry.unique hsubset).perm_of_length_le ?_
    rw [List.length_map, List.length_map, hlength, hforall.length_eq]
  intro entry hentry
  rw [remoteHasLocal_eq, List.any_eq_true]
  obtain ⟨command, hcommand, hkey⟩ := List.mem_map.mp
    (hperm.mem_iff.mpr (List.mem_map_of_mem hentry))
  exact ⟨command, hcommand,
    (remoteMatches_iff (registry.named command hcommand) entry).mpr hkey.symm⟩

/-- **A second synchronization.**  For every registry that was filled by adding commands,
every snapshot and every plan: a command whose members are JSON is classified as it should
be exactly when it is `Recognized`.  Where the snapshot echoes every command, the plan has
nothing to do exactly when every command is clean and finds its object in its own
spelling. -/
theorem sync_idempotent_iff (hregistered : Registered registry)
    (hsnapshot : Text (.array objects) snapshot)
    (hremote : remoteSnapshotParseJson snapshot = .ok remote)
    (hplan : buildPlan registry serializer memory options remote = .ok plan) :
    (∀ (index : Nat) (command : Builder Members),
      registry.entries[index]? = some command → command.Json →
      ∃ diff payload, plan.diffs[index]? = some diff ∧ Text payload (serializer.text command) ∧
        (Idempotent command payload objects diff ↔ Recognized command payload objects)) ∧
    ((∀ command ∈ registry.entries, command.Json) → EchoesAll registry.entries objects →
      ((∀ diff ∈ plan.diffs, diff.action = .noop) ↔
        ∀ command ∈ registry.entries, Clean command ∧ ∃ object payload,
          objects.find? (namesCommand command) = some object ∧
          Text payload (serializer.text command) ∧ SameSpelling payload object)) := by
  refine ⟨fun index command hcommand hjson => ?_, fun hjson hechoes => ⟨fun hnoop => ?_, ?_⟩⟩
  · obtain ⟨payload, htext, hnoop, hupdate⟩ := action_iff hregistered hsnapshot hremote hplan
      (List.mem_of_getElem? hcommand) hjson index
    refine ⟨_, payload, diff_of_command hplan hcommand, htext, fun h => ⟨?_, ?_⟩, fun h => ⟨?_, ?_⟩⟩
    · intro hecho
      obtain ⟨object, hobject, hsame⟩ := hecho
      exact hnoop.mp (h.1 object hobject hsame)
    · intro object hfind hdiffers
      obtain ⟨other, hother, hnot⟩ := hupdate.mp (h.2 object hfind hdiffers)
      rw [hfind] at hother
      cases hother
      exact hnot
    · intro object hobject hsame
      exact hnoop.mpr (h.echoed ⟨object, hobject, hsame⟩)
    · intro object hfind hdiffers
      exact hupdate.mpr ⟨object, hfind, h.differs object hfind hdiffers⟩
  · intro command hmem
    obtain ⟨index, hindex⟩ := List.mem_iff_getElem?.mp hmem
    obtain ⟨payload, htext, hiff, _⟩ := action_iff hregistered hsnapshot hremote hplan hmem
      (hjson command hmem) index
    have hdiff := hnoop _ (List.mem_of_getElem? (diff_of_command hplan hindex))
    obtain ⟨hclean, object, hfind, hsame⟩ := hiff.mp hdiff
    exact ⟨hclean, object, payload, hfind, htext, hsame⟩
  · intro hcond diff hdiff
    obtain ⟨hdiffs, _⟩ := buildPlan_ok hplan
    rw [hdiffs] at hdiff
    rcases List.mem_append.mp hdiff with hlocal | hstale
    · obtain ⟨⟨command, index⟩, hentry, rfl⟩ := List.mem_map.mp hlocal
      have hmem : command ∈ registry.entries := List.fst_mem_of_mem_zipIdx hentry
      obtain ⟨payload, htext, hiff, _⟩ := action_iff hregistered hsnapshot hremote hplan hmem
        (hjson command hmem) index
      obtain ⟨hclean, object, other, hfind, hother, hsame⟩ := hcond command hmem
      exact hiff.mpr ⟨hclean, object, hfind, text_unique htext hother ▸ hsame⟩
    · obtain ⟨⟨entry, index⟩, hentry, _⟩ := List.mem_map.mp hstale
      obtain ⟨hmem, hnone⟩ := List.mem_filter.mp hentry
      obtain ⟨ordered, hperm, hforall⟩ := hechoes
      have hlocal := remoteHasLocal_of_found hsnapshot hremote
        (fun command hcommand => (hcond command hcommand).2.imp fun object h => h.choose_spec.1)
        (hperm.length_eq.symm.trans hforall.length_eq) entry (List.fst_mem_of_mem_zipIdx hmem)
      rw [hlocal] at hnone
      cases hnone

end Plans

/-! ## Commands that come back -/

/-- A chat command with a description and permissions. -/
def pingCommand (permissions : Permissions) : Builder Members where
  name := some (asciiText "ping")
  type := none
  members :=
    { nameLocalizationsJson := none
      description := some (asciiText "Pong")
      descriptionLocalizationsJson := none
      optionsJson := none
      options := none
      defaultMemberPermissions := some permissions
      dmPermission := none
      nsfw := none
      integrationTypesJson := none
      contextsJson := none }

/-- The object that echoes it. -/
def pingObject (permissions : Permissions) : Value :=
  .object [(asciiText "id", .string (asciiText "7")), (asciiText "name", .string (asciiText "ping")),
    (asciiText "description", .string (asciiText "Pong")),
    (asciiText "default_member_permissions", (permissionsPiece permissions).tree)]

/-- The snapshot with this object. -/
def pingSnapshot (permissions : Permissions) : Bytes :=
  appendJsonValue (.array [pingObject permissions])

/-- The registry with this command. -/
def pingRegistry (permissions : Permissions) : Registry Members :=
  (Registry.init.add serializer true (pingCommand permissions)).1

variable {permissions : Permissions}

theorem pingRegistry_entries (h : permissions.null ≤ 1) :
    (pingRegistry permissions).entries = [pingCommand permissions] := by
  have hvalid : validateCreate serializer (pingCommand permissions) = .ok := by
    simp [validateCreate, pingCommand, builderType, serializer, membersValid, chatInput, h]
    decide
  simp [pingRegistry, Registry.add, hvalid, hasDuplicate, Registry.init]

theorem pingCommand_json (permissions : Permissions) : (pingCommand permissions).Json where
  name := by
    intro text htext
    cases htext
    exact (plainKey_of_asciiKey (by decide)).1
  nameLocalizations := fun _ h => nomatch h
  description := by
    intro text htext
    cases htext
    exact (plainKey_of_asciiKey (by decide)).1
  descriptionLocalizations := fun _ h => nomatch h
  optionsJson := fun _ h => nomatch h
  options := fun _ h => nomatch h
  integrationTypes := fun _ h => nomatch h
  contexts := fun _ h => nomatch h

theorem readable_permissions (permissions : Permissions) :
    Readable (permissionsPiece permissions).tree := by
  unfold permissionsPiece
  split
  · exact .null
  · exact .string (plainText_natText _)

theorem pingObject_readable (permissions : Permissions) : Readable (pingObject permissions) := by
  refine .object (fun entry hentry => ?_) (fun entry hentry => ?_)
  · simp only [List.mem_cons, List.not_mem_nil, or_false] at hentry
    rcases hentry with rfl | rfl | rfl | rfl
    · exact (plainKey_of_asciiKey (by decide)).1
    · exact (plainKey_of_asciiKey (by decide)).1
    · exact (plainKey_of_asciiKey (by decide)).1
    · exact (plainKey_of_asciiKey (show asciiKey (asciiText "default_member_permissions") = true
        by decide)).1
  · simp only [List.mem_cons, List.not_mem_nil, or_false] at hentry
    rcases hentry with rfl | rfl | rfl | rfl
    · exact .string (plainKey_of_asciiKey (by decide)).1
    · exact .string (plainKey_of_asciiKey (by decide)).1
    · exact .string (plainKey_of_asciiKey (by decide)).1
    · exact readable_permissions permissions

theorem pingSnapshot_readable (permissions : Permissions) :
    Readable (.array [pingObject permissions]) := by
  refine .array fun item hitem => ?_
  rw [List.mem_singleton.mp hitem]
  exact pingObject_readable permissions

theorem pingSnapshot_text (permissions : Permissions) :
    Text (.array [pingObject permissions]) (pingSnapshot permissions) :=
  item_of_derives (derives_appendJsonValue (pingSnapshot_readable permissions))

theorem pingSnapshot_remote (permissions : Permissions) :
    ∃ entry, remoteSnapshotParseJson (pingSnapshot permissions) = .ok [entry] := by
  have hparse := (parse_ok_iff (pingSnapshot permissions) _).mpr
    ⟨_, pingSnapshot_text permissions, rfl⟩
  rw [(pingSnapshot_readable permissions).terminated_eq] at hparse
  rw [remoteSnapshotParseJson, hparse]
  exact ⟨_, rfl⟩

theorem ping_plan (h : permissions.null ≤ 1) :
    ∃ remote plan, remoteSnapshotParseJson (pingSnapshot permissions) = .ok remote ∧
      buildPlan (pingRegistry permissions) serializer (fun _ => ⟨true, true⟩) none remote =
        .ok plan := by
  obtain ⟨entry, hremote⟩ := pingSnapshot_remote permissions
  obtain ⟨plan, hplan⟩ := buildPlan_succeeds (pingRegistry permissions) serializer none [entry]
    (by
      rw [pingRegistry_entries h]
      intro command hcommand
      rw [List.mem_singleton.mp hcommand]
      exact ⟨_, rfl⟩)
    (by
      rw [pingRegistry_entries h]
      exact show 2 ≤ wordMax / diffSize / 2 by decide)
  exact ⟨_, plan, hremote, hplan⟩

theorem ping_payload {payload : Value}
    (h : Text payload (serializer.text (pingCommand permissions))) :
    payload = .object (present (payloadFields (pingCommand permissions) none)) := by
  have hpiece : commandPiece (pingCommand permissions) =
      .ok (objectPiece (commandFields (pingCommand permissions) none)) := rfl
  have hown := (commandPiece_wellFormed hpiece (pingCommand_json permissions)).derives
  rw [text_unique h hown, tree_objectPiece]
  rfl

theorem ping_members (permissions : Permissions) :
    ∀ key ∈ comparedKeys, objectGet (pingObject permissions) key =
      objectGet (.object (present (payloadFields (pingCommand permissions) none))) key := by
  intro key hkey
  simp only [comparedKeys, List.mem_cons, List.not_mem_nil, or_false] at hkey
  rcases hkey with rfl | rfl | rfl | rfl | rfl | rfl | rfl | rfl | rfl | rfl | rfl <;> rfl

theorem sameValue_permissions (permissions : Permissions) :
    SameValue (permissionsPiece permissions).tree (permissionsPiece permissions).tree := by
  unfold permissionsPiece
  split
  · exact .null
  · exact .string _

theorem ping_echoes {payload : Value}
    (h : Text payload (serializer.text (pingCommand permissions))) :
    Echoes payload (pingObject permissions) := by
  rw [ping_payload h]
  intro key hkey
  rw [← ping_members permissions key hkey]
  simp only [comparedKeys, List.mem_cons, List.not_mem_nil, or_false] at hkey
  rcases hkey with rfl | rfl | rfl | rfl | rfl | rfl | rfl | rfl | rfl | rfl | rfl
  · exact .present (.string _)
  · exact .absent
  · exact .present (.string _)
  · exact .absent
  · exact .absent
  · exact .absent
  · exact .present (sameValue_permissions permissions)
  · exact .absent
  · exact .absent
  · exact .absent
  · exact .absent

theorem ping_find (permissions : Permissions) :
    [pingObject permissions].find? (namesCommand (pingCommand permissions)) =
      some (pingObject permissions) := by
  have hnames : namesCommand (pingCommand permissions) (pingObject permissions) = true := by
    rw [namesCommand, (pingObject_readable permissions).terminated_eq]
    rfl
  rw [List.find?_cons_of_pos hnames]

theorem ping_clean (h : permissions.null = 0) :
    Clean (pingCommand permissions) where
  compact := by
    have hraws : rawTexts (pingCommand permissions) =
        Piece.raws (permissionsPiece permissions) ++ [] := rfl
    rw [hraws, permissionsPiece, h]
    exact fun _ h => nomatch h
  permissions := by
    intro own hown
    cases hown
    exact h
  nameLocalizations := fun _ h => nomatch h
  descriptionLocalizations := fun _ h => nomatch h
  options := fun _ h => nomatch h
  integrationTypes := fun _ h => nomatch h
  contexts := fun _ h => nomatch h

/-- The permissions 8 are recognized in the object that echoes them: the second
synchronization leaves the command alone. -/
theorem sync_idempotent_iff_settled :
    ∃ remote plan diff, remoteSnapshotParseJson (pingSnapshot ⟨8, 0⟩) = .ok remote ∧
      buildPlan (pingRegistry ⟨8, 0⟩) serializer (fun _ => ⟨true, true⟩) none remote = .ok plan ∧
      plan.diffs[0]? = some diff ∧ diff.action = .noop := by
  obtain ⟨remote, plan, hremote, hplan⟩ := ping_plan (show (⟨8, 0⟩ : Permissions).null ≤ 1 by decide)
  have hentry : (pingRegistry ⟨8, 0⟩).entries[0]? = some (pingCommand ⟨8, 0⟩) := by
    rw [pingRegistry_entries (by decide)]
    rfl
  obtain ⟨diff, payload, hdiff, htext, hiff⟩ := (sync_idempotent_iff (Registered.init.add true _)
    (pingSnapshot_text ⟨8, 0⟩) hremote hplan).1 0 _ hentry (pingCommand_json _)
  have hspelling : SameSpelling payload (pingObject ⟨8, 0⟩) := by
    intro key hkey
    rw [(pingObject_readable _).terminated_eq, ping_payload htext]
    exact .inl (ping_members ⟨8, 0⟩ key hkey)
  have hrecognized : Recognized (pingCommand ⟨8, 0⟩) payload [pingObject ⟨8, 0⟩] :=
    ⟨fun _ => ⟨ping_clean rfl, _, ping_find ⟨8, 0⟩, hspelling⟩, fun object hfind hdiffers => by
      rw [ping_find] at hfind
      cases hfind
      exact absurd (ping_echoes htext) hdiffers⟩
  exact ⟨remote, plan, diff, hremote, hplan, hdiff,
    (hiff.mpr hrecognized).1 _ List.mem_cons_self (ping_echoes htext)⟩

/-- **Null permissions are submitted again at every synchronization.**  The snapshot holds an
object with the members that were submitted, and the plan updates the command. -/
theorem null_permissions_never_settle :
    ∃ remote plan diff, Registered (pingRegistry ⟨0, 1⟩) ∧
      (pingRegistry ⟨0, 1⟩).entries = [pingCommand ⟨0, 1⟩] ∧
      Text (.array [pingObject ⟨0, 1⟩]) (pingSnapshot ⟨0, 1⟩) ∧
      (∀ payload, Text payload (serializer.text (pingCommand ⟨0, 1⟩)) →
        Echoes payload (pingObject ⟨0, 1⟩)) ∧
      remoteSnapshotParseJson (pingSnapshot ⟨0, 1⟩) = .ok remote ∧
      buildPlan (pingRegistry ⟨0, 1⟩) serializer (fun _ => ⟨true, true⟩) none remote = .ok plan ∧
      plan.diffs[0]? = some diff ∧ diff.action = .update := by
  have hregistered : Registered (pingRegistry ⟨0, 1⟩) := Registered.init.add true _
  have hentries := pingRegistry_entries (show (⟨0, 1⟩ : Permissions).null ≤ 1 by decide)
  obtain ⟨remote, plan, hremote, hplan⟩ := ping_plan (show (⟨0, 1⟩ : Permissions).null ≤ 1 by decide)
  have hmem : pingCommand ⟨0, 1⟩ ∈ (pingRegistry ⟨0, 1⟩).entries := by
    rw [hentries]
    exact List.mem_cons_self
  obtain ⟨payload, htext, _, hupdate⟩ := action_iff hregistered (pingSnapshot_text ⟨0, 1⟩) hremote
    hplan hmem (pingCommand_json _) 0
  refine ⟨remote, plan, _, hregistered, hentries, pingSnapshot_text _,
    fun payload htext => ping_echoes htext, hremote, hplan,
    diff_of_command hplan (by rw [hentries]; rfl), ?_⟩
  refine hupdate.mpr ⟨_, ping_find _, fun hrecognized => ?_⟩
  exact absurd (hrecognized.1.permissions _ rfl) (by decide)

end Dcc.Commands
