import Dcc.Commands.Snapshot

/-!
# The options of a command in its payload

A tree of option builders is written as an array of objects.  Several members share a key: what a
builder holds as JSON stands in place of the structured member, but a bound on integers and a bound
on numbers are both written.

* `mirrors` — the values that a list of options stands for;
* `options_mirrored_iff` — the text stands for the tree, with every key once, exactly when no
  option has two bounds of one key.
-/

namespace Dcc.Commands

open Dcc.Json Grammar

/-! ## What a tree of options stands for -/

/-- A member that is given as JSON, or else as a list that is not empty. -/
def arrayMember (json : Option Bytes) (items : List Value) : Option Value :=
  match json, items with
  | some json, _ => some (Piece.rawTree json)
  | none, [] => none
  | none, item :: items => some (.array (item :: items))

/-- The value of a choice. -/
def ChoiceValue.mirror : ChoiceValue → Value
  | .string text => .string text
  | .integer value => .number (i64Text value)
  | .number value => .number value.text

/-- The members of a choice. -/
def Choice.entries (choice : Choice) : List (Bytes × Value) :=
  present [(asciiText "name", choice.name.map .string),
    (asciiText "name_localizations", choice.nameLocalizationsJson.map Piece.rawTree),
    (asciiText "value", choice.value.map ChoiceValue.mirror)]

/-- The members of an option that have a key of their own. -/
def OptionMembers.plainEntries (option : OptionMembers) (nested : Option Value) :
    List (Bytes × Option Value) :=
  [(asciiText "type", option.type.map fun type => .number (natText type.toNat)),
    (asciiText "name", option.name.map .string),
    (asciiText "description", option.description.map .string),
    (asciiText "name_localizations", option.nameLocalizationsJson.map Piece.rawTree),
    (asciiText "description_localizations", option.descriptionLocalizationsJson.map Piece.rawTree),
    (asciiText "required", option.required.map fun flag => .bool (flag != 0)),
    (asciiText "choices", arrayMember option.choicesJson
      ((option.choices.getD []).map fun choice => .object choice.entries)),
    (asciiText "options", nested),
    (asciiText "channel_types", arrayMember none
      ((option.channelTypes.getD []).map fun type => .number (natText type.toNat))),
    (asciiText "autocomplete", option.autocomplete.map fun flag => .bool (flag != 0))]

/-- The bounds of an option. -/
def OptionMembers.bounds (option : OptionMembers) : List (Bytes × Option Value) :=
  [(asciiText "min_value", option.minIntegerValue.map fun n => .number (i64Text n)),
    (asciiText "max_value", option.maxIntegerValue.map fun n => .number (i64Text n)),
    (asciiText "min_value", option.minNumberValue.map fun x => .number x.text),
    (asciiText "max_value", option.maxNumberValue.map fun x => .number x.text)]

/-- The members of an option. -/
def OptionMembers.entries (option : OptionMembers) (nested : Option Value) :
    List (Bytes × Value) :=
  present (option.plainEntries nested ++ option.bounds)

mutual

/-- The object of an option, its options in place. -/
def OptionBuilder.mirror : OptionBuilder → Value
  | ⟨members, none⟩ => .object (members.entries (arrayMember members.optionsJson []))
  | ⟨members, some options⟩ =>
    .object (members.entries (arrayMember members.optionsJson (mirrors options)))

/-- One object for each option, in order. -/
def mirrors : List OptionBuilder → List Value
  | [] => []
  | option :: options => option.mirror :: mirrors options

end

mutual

/-- The options that are written for an option: it and those in it, where they are not given as
JSON. -/
def OptionBuilder.written : OptionBuilder → List OptionMembers
  | ⟨members, none⟩ => [members]
  | ⟨members, some options⟩ =>
    members :: if members.optionsJson.isSome then [] else writtenAll options

def writtenAll : List OptionBuilder → List OptionMembers
  | [] => []
  | option :: options => option.written ++ writtenAll options

end

/-- The structured choices of an option are of its own type, and have every key once. -/
def OptionMembers.OwnChoices (option : OptionMembers) : Prop :=
  option.choicesJson = none → ∀ choice ∈ option.choices.getD [],
    (choice.entries.map Prod.fst).Nodup ∧
      ∃ value ∈ choice.value, ∃ type ∈ option.type, choiceMatchesOption value type = true

/-- The text stands for the tree: every member has the builder's value, no key occurs twice in an
object, and choices have the type of their option. -/
structure Mirrored (options : List OptionBuilder) (text : Bytes) : Prop where
  tree : Text (.array (mirrors options)) text
  keysOnce : ∀ option ∈ writtenAll options, ∀ nested, ((option.entries nested).map Prod.fst).Nodup
  choices : ∀ option ∈ writtenAll options, option.OwnChoices

/-- One bound of each key. -/
def OptionMembers.BoundsApart (option : OptionMembers) : Prop :=
  (option.minIntegerValue = none ∨ option.minNumberValue = none) ∧
    (option.maxIntegerValue = none ∨ option.maxNumberValue = none)

/-! ## Keys -/

theorem nodup_present {α : Type} {fields : List (Bytes × Option α)} :
    ((present fields).map Prod.fst).Nodup ↔
      fields.Pairwise fun a b => ∀ x ∈ a.2, ∀ y ∈ b.2, a.1 ≠ b.1 := by
  rw [List.Nodup, List.pairwise_map, present, List.pairwise_filterMap]
  constructor
  · refine fun h => h.imp fun hab x hx y hy => ?_
    exact hab (_, x) (by rw [hx]; rfl) (_, y) (by rw [hy]; rfl)
  · refine fun h => h.imp fun hab entry hentry other hother => ?_
    obtain ⟨x, hx, rfl⟩ := Option.map_eq_some_iff.mp hentry
    obtain ⟨y, hy, rfl⟩ := Option.map_eq_some_iff.mp hother
    exact hab x hx y hy

theorem choice_keysOnce (choice : Choice) : (choice.entries.map Prod.fst).Nodup := by
  rw [Choice.entries, nodup_present]
  simp [asciiText]

/-- **The keys of an option are distinct** when its bounds are apart. -/
theorem keysOnce_iff {option : OptionMembers} {nested : Option Value} :
    ((option.entries nested).map Prod.fst).Nodup ↔ option.BoundsApart := by
  have hplain : ((option.plainEntries nested).map Prod.fst).Nodup := by
    simp only [OptionMembers.plainEntries, List.map_cons, List.map_nil]
    decide
  have hother : ∀ entry ∈ option.plainEntries nested, ∀ bound ∈ option.bounds,
      entry.1 ≠ bound.1 := by
    simp [OptionMembers.plainEntries, OptionMembers.bounds, asciiText]
  have hbounds : (option.bounds.Pairwise fun a b => ∀ x ∈ a.2, ∀ y ∈ b.2, a.1 ≠ b.1) ↔
      option.BoundsApart := by
    simp only [OptionMembers.bounds, OptionMembers.BoundsApart]
    cases option.minIntegerValue <;> cases option.minNumberValue <;>
      cases option.maxIntegerValue <;> cases option.maxNumberValue <;> simp [asciiText]
  rw [OptionMembers.entries, nodup_present, List.pairwise_append, hbounds]
  refine ⟨fun h => h.2.1, fun h => ⟨?_, h, fun a ha b hb _ _ _ _ => hother a ha b hb⟩⟩
  exact (List.pairwise_map.mp hplain).imp fun hne _ _ _ _ => hne

/-! ## What is written -/

variable {type : UInt32} {option : OptionMembers} {piece : Piece}

theorem choicePiece_mirror {choice : Choice} (h : choicePiece type choice = .ok piece) :
    piece.tree = .object choice.entries ∧ (choice.entries.map Prod.fst).Nodup ∧
      ∃ value ∈ choice.value, choiceMatchesOption value type = true := by
  unfold choicePiece at h
  split at h
  · next name value hname hvalue =>
    split at h
    · next hvalid =>
      cases h
      rw [Bool.and_eq_true] at hvalid
      refine ⟨?_, choice_keysOnce choice, value, hvalue, hvalid.2⟩
      rw [tree_objectPiece, Choice.entries, hname, hvalue]
      cases value <;> cases choice.nameLocalizationsJson <;> rfl
    · cases h
  · cases h

theorem trees_of_forall₂ {α : Type} {f : α → Value} {P : α → Prop} {items : List α}
    {pieces : List Piece}
    (h : List.Forall₂ (fun x piece => piece.tree = f x ∧ P x) items pieces) :
    Piece.itemTrees pieces = items.map f ∧ ∀ x ∈ items, P x := by
  induction h with
  | nil => exact ⟨rfl, by simp⟩
  | cons hfirst _ ih =>
    rw [Piece.itemTrees, hfirst.1, ih.1, List.map_cons]
    exact ⟨rfl, List.forall_mem_cons.mpr ⟨hfirst.2, ih.2⟩⟩

theorem optionsMember_mirror {α : Type} {items : List α} {f : α → Value} {P : α → Prop}
    {json : Option Bytes} {result : Except Status (List Piece)} {member : Option Piece}
    (h : optionsMember json items.length result = .ok member)
    (hall : ∀ pieces, result = .ok pieces →
      List.Forall₂ (fun x piece => piece.tree = f x ∧ P x) items pieces) :
    member.map Piece.tree = arrayMember json (items.map f) ∧ (json = none → ∀ x ∈ items, P x) := by
  unfold optionsMember at h
  split at h
  · cases h
    exact ⟨rfl, by simp⟩
  · cases items with
    | nil =>
      cases h
      exact ⟨rfl, fun _ => by simp⟩
    | cons first rest =>
      cases result with
      | error status => cases h
      | ok pieces =>
        cases h
        obtain ⟨htrees, hitems⟩ := trees_of_forall₂ (hall pieces rfl)
        exact ⟨congrArg (fun trees => some (Value.array trees)) htrees, fun _ => hitems⟩

theorem optionObject_mirror {result : Except Status (Option Piece)}
    (h : optionObject option result = .ok piece) :
    ∃ nested, result = .ok nested ∧
      piece.tree = .object (option.entries (nested.map Piece.tree)) ∧ option.OwnChoices := by
  unfold optionObject at h
  split at h
  · next name description type hname hdescription htype =>
    split at h
    · cases h
    · split at h
      · next choices nested hchoices =>
        cases h
        obtain ⟨htree, hown⟩ := optionsMember_mirror (choicesField_ok hchoices)
          fun _ hloop => (choicePieces_loops type).each hloop fun _ _ _ => choicePiece_mirror
        refine ⟨nested, rfl, ?_, fun hnone choice hchoice => ?_⟩
        · have hchannels : (channelTypesField option).map Piece.tree = arrayMember none
              ((option.channelTypes.getD []).map fun type => .number (natText type.toNat)) := by
            rw [channelTypesField]
            rcases option.channelTypes with _ | ⟨_ | ⟨first, rest⟩⟩
            · rfl
            · rfl
            · simp [Piece.tree, Piece.itemTrees_eq_map, arrayMember, numberPiece, Function.comp_def]
          rw [tree_objectPiece, OptionMembers.entries, OptionMembers.plainEntries,
            OptionMembers.bounds, hname, hdescription, htype, ← htree, ← hchannels]
          simp [optionFields, Piece.tree, numberPiece, stringPiece, flagPiece, Function.comp_def]
        · obtain ⟨hkeys, value, hvalue, hmatches⟩ := hown hnone choice hchoice
          exact ⟨hkeys, value, hvalue, type, htype, hmatches⟩
      · cases h
  · cases h

theorem mirrors_eq_map (options : List OptionBuilder) :
    mirrors options = options.map OptionBuilder.mirror := by
  induction options with
  | nil => rw [mirrors, List.map_nil]
  | cons option options ih => rw [mirrors, ih, List.map_cons]

theorem mem_writtenAll {options : List OptionBuilder} :
    option ∈ writtenAll options ↔ ∃ builder ∈ options, option ∈ builder.written := by
  induction options with
  | nil => simp [writtenAll]
  | cons builder options ih => simp [writtenAll, ih]

/-- **What is written of an option stands for it.** -/
theorem optionPiece_mirror {builder : OptionBuilder} (h : builder.Json) :
    ∀ piece, optionPiece builder = .ok piece →
      piece.tree = builder.mirror ∧ ∀ option ∈ builder.written, option.OwnChoices := by
  induction h with
  | @mk builder _ _ ih =>
    obtain ⟨members, options⟩ := builder
    intro piece hpiece
    cases options with
    | none =>
      rw [optionPiece] at hpiece
      obtain ⟨nested, hnested, htree, hown⟩ := optionObject_mirror hpiece
      obtain ⟨hmember, -⟩ := @optionsMember_mirror Unit [] (fun _ => .null) (fun _ => True) _ _ _
        hnested fun _ hok => by cases hok; exact .nil
      rw [htree, hmember, OptionBuilder.mirror, OptionBuilder.written]
      exact ⟨rfl, List.forall_mem_singleton.mpr hown⟩
    | some options =>
      rw [optionPiece] at hpiece
      obtain ⟨nested, hnested, htree, hown⟩ := optionObject_mirror hpiece
      obtain ⟨hmember, hall⟩ := optionsMember_mirror hnested
        fun _ hok => optionPieces_loops.each hok (ih options rfl)
      rw [htree, hmember, OptionBuilder.mirror, OptionBuilder.written, mirrors_eq_map]
      refine ⟨rfl, List.forall_mem_cons.mpr ⟨hown, fun option hoption => ?_⟩⟩
      split at hoption
      · cases hoption
      · next hnone =>
        obtain ⟨builder, hbuilder, hwritten⟩ := mem_writtenAll.mp hoption
        exact hall (by simpa using hnone) builder hbuilder option hwritten

/-- **The options of a command in its payload.**  What is written of a tree of options stands for
it exactly when none of the options that are written has two bounds of one key. -/
theorem options_mirrored_iff {options : List OptionBuilder} {pieces : List Piece}
    (h : optionPieces options = .ok pieces) (hjson : ∀ option ∈ options, option.Json) :
    Mirrored options (Piece.array pieces).text ↔
      ∀ option ∈ writtenAll options, option.BoundsApart := by
  have heach := optionPieces_loops.each h fun option hoption =>
    optionPiece_mirror (hjson option hoption)
  obtain ⟨htrees, hown⟩ := trees_of_forall₂ heach
  have hwell := optionPieces_wellFormed h fun option hoption =>
    optionPiece_wellFormed (hjson option hoption)
  refine ⟨fun hmirrored option hoption => keysOnce_iff.mp (hmirrored.keysOnce option hoption none),
    fun hapart => ⟨?_, fun option hoption nested => keysOnce_iff.mpr (hapart option hoption), ?_⟩⟩
  · have htext := (Piece.WellFormed.array hwell).derives
    rwa [Piece.tree, htrees, ← mirrors_eq_map] at htext
  · intro option hoption
    obtain ⟨builder, hbuilder, hwritten⟩ := mem_writtenAll.mp hoption
    exact hown builder hbuilder option hwritten

/-- An option for an integer from 1, with a bound on numbers or without one. -/
def rangeOption (minNumberValue : Option Double) : OptionMembers where
  name := some (asciiText "count")
  description := some (asciiText "How many")
  type := some 4
  nameLocalizationsJson := none
  descriptionLocalizationsJson := none
  choicesJson := none
  choices := none
  optionsJson := none
  channelTypes := none
  minIntegerValue := some 1
  maxIntegerValue := none
  minNumberValue
  maxNumberValue := none
  required := some 1
  autocomplete := none

theorem rangeOption_json {minNumberValue : Option Double} (h : ∀ x ∈ minNumberValue, x.IsFinite) :
    OptionBuilder.Json ⟨rangeOption minNumberValue, none⟩ := by
  refine .mk ⟨?_, ?_, nofun, nofun, nofun, nofun, nofun, h, nofun⟩ nofun <;>
    exact fun text htext => by
      cases htext
      exact (plainKey_of_asciiKey (by decide)).1

/-- A bound on integers alone. -/
theorem options_mirrored_range :
    ∃ pieces, optionPieces [⟨rangeOption none, none⟩] = .ok pieces ∧
      Mirrored [⟨rangeOption none, none⟩] (Piece.array pieces).text := by
  refine ⟨_, rfl, (options_mirrored_iff rfl fun option hoption => ?_).mpr fun option hoption => ?_⟩
  · rw [List.mem_singleton.mp hoption]
    exact rangeOption_json nofun
  · rw [List.mem_singleton.mp hoption]
    exact ⟨.inr rfl, .inl rfl⟩

/-- A bound on integers and one on numbers: the key `min_value` is written twice. -/
theorem both_bounds_written :
    ¬ ∀ options pieces, optionPieces options = .ok pieces →
      (∀ option ∈ options, option.Json) → Mirrored options (Piece.array pieces).text := by
  intro hall
  let number : Double := .finite (natText 2) (number_decimalText 2)
  have hmirrored := hall [⟨rangeOption (some number), none⟩] _ rfl fun option hoption => by
    rw [List.mem_singleton.mp hoption]
    exact rangeOption_json fun x hx => by cases hx; trivial
  have hapart := keysOnce_iff.mp (hmirrored.keysOnce (rangeOption (some number))
    (List.mem_singleton.mpr rfl) none)
  exact hapart.1.elim nofun nofun

end Dcc.Commands
