import Dcc.Json.Options

/-!
# The tree of options a text holds

What the parser of the options is for, without its pool: the text is read into a
tree.  The only thing threaded through the reading is the number of lists that
are in use, which says what number an array gets and whether it is opened.

* `OptionArray`, `OptionItems`, `OptionArrays`: the trees.  An array that is not
  opened leaves its text behind, and an array that is too long the number of
  elements passed over; an object with several `options` members has them all;
* `readArrayFuel`, `readEvent`: the reading;
* `OptionArray.Held`: a pool holds a tree, slot by slot and list by list;
* `readNumbered`: the lists of a tree are numbered upwards in the order of the
  text, from the number in use before, and never from 16 on.
-/

namespace Dcc.Json

variable {ν : Type}

mutual

/-- The value of an `options` member. -/
inductive OptionArray (ν : Type)
  | absent
  | leftOut (text : Bytes)
  | stored (list : Nat) (items : OptionItems ν) (extra : Nat)

/-- The options of an array, each with the values of its own `options` members. -/
inductive OptionItems (ν : Type)
  | nil
  | cons (option : InteractionOption ν) (subs : OptionArrays ν) (rest : OptionItems ν)

/-- The `options` members of an object, in the order of the text. -/
inductive OptionArrays (ν : Type)
  | nil
  | cons (array : OptionArray ν) (rest : OptionArrays ν)

end

/-- The number of options. -/
def OptionItems.length : OptionItems ν → Nat
  | .nil => 0
  | .cons _ _ rest => rest.length + 1

mutual

/-- The lists an array takes, its own first. -/
def OptionArray.lists : OptionArray ν → List Nat
  | .absent => []
  | .leftOut _ => []
  | .stored list items _ => list :: items.lists

/-- The lists the options of an array take. -/
def OptionItems.lists : OptionItems ν → List Nat
  | .nil => []
  | .cons _ subs rest => subs.lists ++ rest.lists

/-- The lists a row of arrays takes. -/
def OptionArrays.lists : OptionArrays ν → List Nat
  | .nil => []
  | .cons array rest => array.lists ++ rest.lists

end

/-! ## Reading -/

/-- What was read, the lists in use after it, and the cursor. -/
structure OptionsRead (α : Type) where
  value : α
  used : Nat
  rest : Bytes

/-- The text at a cursor up to a later one. -/
def textBetween (cur rest : Bytes) : Bytes := cur.take (cur.length - rest.length)

section Read

variable [Zero ν] (strtod : Bytes → Option ν)

/-- What follows a member: the `next` one, or the end of the option. -/
def readAfterMember
    (next : Bytes → Option (OptionsRead (InteractionOption ν × OptionArrays ν)))
    (fields : OptionFields ν) (state : OptionState) (used : Nat) (cur : Bytes) :
    Option (OptionsRead (InteractionOption ν × OptionArrays ν)) :=
  (afterElement chRBrace cur).bind fun e =>
    if e.1 then next e.2
    else (finalizeOption strtod fields state).map fun fields => ⟨(fields.option, .nil), used, e.2⟩

mutual

/-- The value of an `options` member at a depth. -/
def readArrayFuel : Nat → Nat → Nat → Bytes → Option (OptionsRead (OptionArray ν))
  | 0, _, _, _ => none
  | fuel + 1, depth, used, cur =>
    match skipWs cur with
    | [] => none
    | c :: p =>
      if c ≠ chLBracket then (skipValue (c :: p)).map fun rest => ⟨.absent, used, rest⟩
      else if optionDepthCap ≤ depth ∨ optionListCap ≤ used then
        (skipValue (c :: p)).map fun rest => ⟨.leftOut (textBetween (c :: p) rest), used, rest⟩
      else if (skipWs p).head? = some chRBracket then
        some ⟨.stored used .nil 0, used + 1, (skipWs p).drop 1⟩
      else
        (readItemsFuel fuel depth 0 (used + 1) (skipWs p)).map fun r =>
          ⟨.stored used r.value.1 r.value.2, r.used, r.rest⟩

/-- The elements of an array from a place on: the options, and how many are passed over. -/
def readItemsFuel : Nat → Nat → Nat → Nat → Bytes → Option (OptionsRead (OptionItems ν × Nat))
  | 0, _, _, _, _ => none
  | fuel + 1, depth, index, used, cur =>
    if optionCap ≤ index then
      (skipValue cur).bind fun rest =>
        (afterElement chRBracket rest).bind fun e =>
          if e.1 then
            (readItemsFuel fuel depth (index + 1) used e.2).map fun r =>
              ⟨(r.value.1, r.value.2 + 1), r.used, r.rest⟩
          else some ⟨(.nil, 1), used, e.2⟩
    else
      (readObjectFuel fuel depth used cur).bind fun o =>
        (afterElement chRBracket o.rest).bind fun e =>
          if e.1 then
            (readItemsFuel fuel depth (index + 1) o.used e.2).map fun r =>
              ⟨(.cons o.value.1 o.value.2 r.value.1, r.value.2), r.used, r.rest⟩
          else some ⟨(.cons o.value.1 o.value.2 .nil, 0), o.used, e.2⟩

/-- An element: one that is no object is an option without anything in it. -/
def readObjectFuel : Nat → Nat → Nat → Bytes →
    Option (OptionsRead (InteractionOption ν × OptionArrays ν))
  | 0, _, _, _ => none
  | fuel + 1, depth, used, cur =>
    match skipWs cur with
    | [] => none
    | c :: p =>
      if c ≠ chLBrace then
        (skipValue (c :: p)).map fun rest =>
          ⟨((OptionFields.zero [] []).option, .nil), used, rest⟩
      else if (skipWs p).head? = some chRBrace then
        (finalizeOption strtod (.zero [] []) {}).map fun fields =>
          ⟨(fields.option, .nil), used, (skipWs p).drop 1⟩
      else readMembersFuel fuel depth (.zero [] []) {} used (skipWs p)

/-- The members of an object, with the fields read so far. -/
def readMembersFuel : Nat → Nat → OptionFields ν → OptionState → Nat → Bytes →
    Option (OptionsRead (InteractionOption ν × OptionArrays ν))
  | 0, _, _, _, _, _ => none
  | fuel + 1, depth, fields, state, used, cur =>
    (parseGatewayKey cur).bind fun key =>
      (afterColon key.2).bind fun p =>
        (optionScalarField key.1 p fields state).bind fun r =>
          match r.2 with
          | some rest =>
            readAfterMember strtod (readMembersFuel fuel depth r.1.1 r.1.2 used) r.1.1 r.1.2 used
              rest
          | none =>
            if key.1 = .options then
              (readArrayFuel fuel (depth + 1) used p).bind fun a =>
                (readAfterMember strtod (readMembersFuel fuel depth fields state a.used) fields state
                  a.used a.rest).map fun m =>
                  ⟨(m.value.1, .cons a.value m.value.2), m.used, m.rest⟩
            else
              (skipValue p).bind
                (readAfterMember strtod (readMembersFuel fuel depth fields state used) fields state
                  used)

end

/-- The `options` members of a payload. -/
def readEvent (fuel : Nat) : List Bytes → Nat → Option (OptionArrays ν × Nat)
  | [], used => some (.nil, used)
  | cur :: curs, used =>
    (readArrayFuel strtod fuel 0 used cur).bind fun a =>
      (readEvent fuel curs a.used).map fun r => (.cons a.value r.1, r.2)

end Read

/-! ## Numbering -/

/-- An increasing row of lists, from a number in use before to the one in use after. -/
structure Numbered (ls : List Nat) (lo hi : Nat) : Prop where
  le : lo ≤ hi
  cap : lo ≤ optionListCap → hi ≤ optionListCap
  sorted : ls.Pairwise (· < ·)
  mem : ∀ l ∈ ls, lo ≤ l ∧ l < hi

theorem Numbered.nil (lo : Nat) : Numbered [] lo lo :=
  ⟨Nat.le_refl _, id, List.Pairwise.nil, fun _ h => nomatch h⟩

theorem Numbered.append {ls ls' : List Nat} {lo mid hi : Nat} (h : Numbered ls lo mid)
    (h' : Numbered ls' mid hi) : Numbered (ls ++ ls') lo hi where
  le := Nat.le_trans h.le h'.le
  cap hlo := h'.cap (h.cap hlo)
  sorted := by
    refine List.pairwise_append.mpr ⟨h.sorted, h'.sorted, fun l hl l' hl' => ?_⟩
    exact Nat.lt_of_lt_of_le (h.mem l hl).2 (h'.mem l' hl').1
  mem l hl := by
    have hle := h.le
    have hle' := h'.le
    rcases List.mem_append.mp hl with hl | hl
    · have hl := h.mem l hl
      omega
    · have hl := h'.mem l hl
      omega

theorem Numbered.cons {ls : List Nat} {lo hi : Nat} (h : Numbered ls (lo + 1) hi)
    (hlo : lo < optionListCap) : Numbered (lo :: ls) lo hi where
  le := Nat.le_of_succ_le h.le
  cap _ := h.cap hlo
  sorted := List.pairwise_cons.mpr ⟨fun l hl => (h.mem l hl).1, h.sorted⟩
  mem l hl := by
    have hle := h.le
    rcases List.mem_cons.mp hl with rfl | hl
    · omega
    · have hl := h.mem l hl
      omega

/-- What is read with so much fuel is numbered. -/
structure ReadNumbered [Zero ν] (strtod : Bytes → Option ν) (fuel : Nat) : Prop where
  array : ∀ {depth used cur r}, readArrayFuel strtod fuel depth used cur = some r →
    Numbered r.value.lists used r.used
  items : ∀ {depth index used cur r}, readItemsFuel strtod fuel depth index used cur = some r →
    Numbered r.value.1.lists used r.used
  object : ∀ {depth used cur r}, readObjectFuel strtod fuel depth used cur = some r →
    Numbered r.value.2.lists used r.used
  members : ∀ {depth fields state used cur r},
    readMembersFuel strtod fuel depth fields state used cur = some r →
      Numbered r.value.2.lists used r.used

section Numbering

variable [Zero ν] {strtod : Bytes → Option ν} {fuel : Nat}

section

variable (h : ReadNumbered strtod fuel)
include h

variable {depth used : Nat} {cur : Bytes}

theorem readArray_numbered_succ {r : OptionsRead (OptionArray ν)}
    (hread : readArrayFuel strtod (fuel + 1) depth used cur = some r) :
    Numbered r.value.lists used r.used := by
  rw [readArrayFuel] at hread
  split at hread
  · cases hread
  next c p _ =>
  split_ifs at hread with hopen hcap hclose
  · obtain ⟨rest, -, rfl⟩ := Option.map_eq_some_iff.mp hread
    exact Numbered.nil used
  · obtain ⟨rest, -, rfl⟩ := Option.map_eq_some_iff.mp hread
    exact Numbered.nil used
  · cases hread
    exact (Numbered.nil (used + 1)).cons (by omega)
  · obtain ⟨items, hitems, rfl⟩ := Option.map_eq_some_iff.mp hread
    exact (h.items hitems).cons (by omega)

theorem readItems_numbered_succ {depth index used : Nat} {r : OptionsRead (OptionItems ν × Nat)}
    (hread : readItemsFuel strtod (fuel + 1) depth index used cur = some r) :
    Numbered r.value.1.lists used r.used := by
  rw [readItemsFuel] at hread
  split_ifs at hread with hcap
  · obtain ⟨rest, -, hread⟩ := Option.bind_eq_some_iff.mp hread
    obtain ⟨e, -, hread⟩ := Option.bind_eq_some_iff.mp hread
    split_ifs at hread with hmore
    · obtain ⟨items, hitems, rfl⟩ := Option.map_eq_some_iff.mp hread
      have hnumbered := h.items hitems
      exact hnumbered
    · cases hread
      exact Numbered.nil used
  · obtain ⟨o, hobject, hread⟩ := Option.bind_eq_some_iff.mp hread
    obtain ⟨e, -, hread⟩ := Option.bind_eq_some_iff.mp hread
    split_ifs at hread with hmore
    · obtain ⟨items, hitems, rfl⟩ := Option.map_eq_some_iff.mp hread
      exact (h.object hobject).append (h.items hitems)
    · cases hread
      exact (h.object hobject).append (Numbered.nil o.used)

variable {r : OptionsRead (InteractionOption ν × OptionArrays ν)}

theorem readObject_numbered_succ
    (hread : readObjectFuel strtod (fuel + 1) depth used cur = some r) :
    Numbered r.value.2.lists used r.used := by
  rw [readObjectFuel] at hread
  split at hread
  · cases hread
  next c p _ =>
  split_ifs at hread with hopen hclose
  · obtain ⟨rest, -, rfl⟩ := Option.map_eq_some_iff.mp hread
    exact Numbered.nil used
  · obtain ⟨fields, -, rfl⟩ := Option.map_eq_some_iff.mp hread
    exact Numbered.nil used
  · exact h.members hread

variable {fields : OptionFields ν} {state : OptionState}

theorem readAfterMember_numbered
    (hread : readAfterMember strtod (readMembersFuel strtod fuel depth fields state used) fields
      state used cur = some r) :
    Numbered r.value.2.lists used r.used := by
  obtain ⟨e, -, hread⟩ := Option.bind_eq_some_iff.mp hread
  split_ifs at hread with hmore
  · exact h.members hread
  · obtain ⟨fields, -, rfl⟩ := Option.map_eq_some_iff.mp hread
    exact Numbered.nil used

theorem readMembers_numbered_succ
    (hread : readMembersFuel strtod (fuel + 1) depth fields state used cur = some r) :
    Numbered r.value.2.lists used r.used := by
  rw [readMembersFuel] at hread
  obtain ⟨key, -, hread⟩ := Option.bind_eq_some_iff.mp hread
  obtain ⟨p, -, hread⟩ := Option.bind_eq_some_iff.mp hread
  obtain ⟨scalar, -, hread⟩ := Option.bind_eq_some_iff.mp hread
  split at hread
  · exact readAfterMember_numbered h hread
  · split_ifs at hread with hkey
    · obtain ⟨a, harray, hread⟩ := Option.bind_eq_some_iff.mp hread
      obtain ⟨m, hmembers, rfl⟩ := Option.map_eq_some_iff.mp hread
      exact (h.array harray).append (readAfterMember_numbered h hmembers)
    · obtain ⟨rest, -, hread⟩ := Option.bind_eq_some_iff.mp hread
      exact readAfterMember_numbered h hread

end

/-- **Lists are numbered upwards** in the order of the text, and never from 16 on. -/
theorem readNumbered (strtod : Bytes → Option ν) (fuel : Nat) : ReadNumbered strtod fuel := by
  induction fuel with
  | zero =>
    constructor
    · intro _ _ _ _ hread
      rw [readArrayFuel] at hread
      cases hread
    · intro _ _ _ _ _ hread
      rw [readItemsFuel] at hread
      cases hread
    · intro _ _ _ _ hread
      rw [readObjectFuel] at hread
      cases hread
    · intro _ _ _ _ _ _ hread
      rw [readMembersFuel] at hread
      cases hread
  | succ fuel ih =>
    exact ⟨readArray_numbered_succ ih, readItems_numbered_succ ih, readObject_numbered_succ ih,
      readMembers_numbered_succ ih⟩

theorem readEvent_numbered {curs : List Bytes} {used used' : Nat} {arrays : OptionArrays ν}
    (hread : readEvent strtod fuel curs used = some (arrays, used')) :
    Numbered arrays.lists used used' := by
  induction curs generalizing used arrays with
  | nil =>
    cases hread
    exact Numbered.nil _
  | cons cur curs ih =>
    obtain ⟨a, harray, hread⟩ := Option.bind_eq_some_iff.mp hread
    obtain ⟨⟨rest, last⟩, hrest, heq⟩ := Option.map_eq_some_iff.mp hread
    cases heq
    exact ((readNumbered strtod fuel).array harray).append (ih hrest)

end Numbering

/-! ## Holding -/

section Holding

-- Which of the arrays that are not opened count as left out, by their text.
variable (left : Bytes → Bool)

/-- What an owner shows of an array. -/
def OptionArray.view : OptionArray ν → OptionList
  | .absent => .empty
  | .leftOut text => ⟨none, 0, left text⟩
  | .stored list items extra => ⟨some list, items.length, 0 < extra⟩

/-- What an owner shows after a row of `options` members: the last array, where there is one. -/
def OptionArrays.view (before : OptionList) : OptionArrays ν → OptionList
  | .nil => before
  | .cons array rest => rest.view (array.view left)

mutual

/-- A pool holds an array: its list has no more options than slots, and holds them. -/
def OptionArray.Held (pool : OptionPool ν) : OptionArray ν → Prop
  | .absent => True
  | .leftOut _ => True
  | .stored list items _ => items.length ≤ optionCap ∧ items.Held pool list 0

/-- A list of the pool holds the options from a slot on, each with its own options. -/
def OptionItems.Held (pool : OptionPool ν) (list : Nat) : Nat → OptionItems ν → Prop
  | _, .nil => True
  | index, .cons option subs rest =>
    ((pool.lists list index).fields.option = option ∧
      (pool.lists list index).options = subs.view left .empty) ∧
    subs.Held pool ∧ rest.Held pool list (index + 1)

/-- A pool holds a row of arrays. -/
def OptionArrays.Held (pool : OptionPool ν) : OptionArrays ν → Prop
  | .nil => True
  | .cons array rest => array.Held pool ∧ rest.Held pool

end

end Holding

end Dcc.Json
