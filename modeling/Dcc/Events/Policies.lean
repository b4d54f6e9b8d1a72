import Mathlib.Data.List.Induction
import Mathlib.Data.List.Nodup
import Mathlib.Logic.Function.Basic
import Dcc.Events.Waiters

/-!
# What the waiters wait for

* `greedy`, `firsts` — the events that a sequence, and a quorum, take;
* `sequence_step`, `set_step`, `count_step`, `quorum_step` — one event, for a waiter of each
  policy;
* `waiters_compute` — whatever is dispatched, each waiter completes exactly when its policy says,
  holds the snapshots of the events it took, is signalled once, and changes no more after that.
-/

namespace Dcc.Events

/-! ## The events a policy takes -/

/-- The events that match a sequence greedily. -/
def greedy : List Int → List Event → List Event
  | [], _ => []
  | _ :: _, [] => []
  | type :: types, event :: events =>
    if event.type = type then event :: greedy types events
    else greedy (type :: types) events

/-- The first event of each type, as the events come. -/
def firsts (types : List Int) (events : List Event) : List Event :=
  events.foldl (fun seen event =>
    if event.type ∈ types ∧ event.type ∉ seen.map Event.type then seen ++ [event] else seen) []

/-- The types that have occurred. -/
def occurred (types : List Int) (events : List Event) : List Int :=
  types.filter fun type => type ∈ events.map Event.type

/-- The events of a list of types. -/
def matching (types : List Int) (events : List Event) : List Event :=
  events.filter fun event => event.type ∈ types

/-- The event that goes into the slot of a type of a set. -/
def setEvent (types : List Int) (events : List Event) (index : Nat) : Option Event :=
  (types[index]?).bind fun type => events.find? fun event => event.type = type

theorem greedy_nil (types : List Int) : greedy types [] = [] := by cases types <;> rfl

theorem greedy_length_le (types : List Int) (events : List Event) :
    (greedy types events).length ≤ types.length := by
  induction events generalizing types with
  | nil => simp [greedy_nil]
  | cons event events ih =>
    cases types with
    | nil => exact Nat.le_refl 0
    | cons type types =>
      rw [greedy]
      split
      · exact Nat.succ_le_succ (ih types)
      · exact ih (type :: types)

theorem greedy_concat (types : List Int) (events : List Event) (event : Event) :
    greedy types (events ++ [event]) = greedy types events ++
      if types[(greedy types events).length]? = some event.type then [event] else [] := by
  induction events generalizing types with
  | nil =>
    cases types with
    | nil => rfl
    | cons type types => simp [greedy, greedy_nil, eq_comm]
  | cons first events ih =>
    cases types with
    | nil => simp [greedy]
    | cons type types =>
      rw [List.cons_append, greedy, greedy]
      split
      · rw [ih types]
        simp
      · exact ih (type :: types)

/-- **Greedy matching finds a subsequence** where there is one. -/
theorem greedy_complete (types : List Int) (events : List Event) :
    (greedy types events).length = types.length ↔ types.Sublist (events.map Event.type) := by
  induction events generalizing types with
  | nil => cases types <;> simp [greedy_nil]
  | cons event events ih =>
    cases types with
    | nil => simp [greedy]
    | cons type types =>
      rw [greedy, List.map_cons]
      by_cases htype : event.type = type
      · rw [if_pos htype, htype, List.length_cons, List.length_cons, Nat.succ_inj, ih types,
          List.cons_sublist_cons]
      · rw [if_neg htype, ih (type :: types)]
        constructor
        · exact fun h => h.cons _
        · intro h
          cases h with
          | cons _ h => exact h
          | cons_cons _ _ => exact absurd rfl htype

theorem firsts_concat (types : List Int) (events : List Event) (event : Event) :
    firsts types (events ++ [event]) =
      if event.type ∈ types ∧ event.type ∉ (firsts types events).map Event.type then
        firsts types events ++ [event]
      else firsts types events := by
  rw [firsts, List.foldl_append]
  rfl

theorem mem_firsts (types : List Int) (events : List Event) (type : Int) :
    type ∈ (firsts types events).map Event.type ↔ type ∈ types ∧ type ∈ events.map Event.type := by
  induction events using List.reverseRecOn with
  | nil => simp [firsts]
  | append_singleton events event ih =>
    rw [firsts_concat]
    split
    · next hnew => grind
    · next hold => grind

theorem firsts_nodup (types : List Int) (events : List Event) :
    ((firsts types events).map Event.type).Nodup := by
  induction events using List.reverseRecOn with
  | nil => exact List.nodup_nil
  | append_singleton events event ih =>
    rw [firsts_concat]
    split
    · next hnew =>
      rw [List.map_append]
      refine List.nodup_append.mpr ⟨ih, List.nodup_singleton _, ?_⟩
      grind
    · exact ih

section

variable {types : List Int}

theorem firsts_length (hnodup : types.Nodup) (events : List Event) :
    (firsts types events).length = (occurred types events).length := by
  have hperm : ((firsts types events).map Event.type).Perm (occurred types events) := by
    refine (List.perm_ext_iff_of_nodup (firsts_nodup types events) (hnodup.filter _)).mpr ?_
    intro type
    rw [mem_firsts]
    simp
  rw [← hperm.length_eq, List.length_map]

theorem matching_concat (types : List Int) (events : List Event) (event : Event) :
    matching types (events ++ [event]) =
      matching types events ++ if event.type ∈ types then [event] else [] := by
  simp [matching, List.filter_append, List.filter_cons]

/-! ## Masks -/

/-- The mask holds exactly some types. -/
def Holds (mask : Mask) (types : List Int) : Prop :=
  ∀ type, maskHas mask type = decide (type ∈ types)

theorem maskHas_eq {mask : Mask} {type : Int} (htype : typeValid type = true) :
    maskHas mask type = (mask (type.toNat / 64)).getLsbD (type.toNat % 64) := by
  rw [maskHas, if_pos htype, BitVec.and_one_eq_setWidth_ofBool_getLsbD, BitVec.getLsbD_ushiftRight]
  cases h : (mask (type.toNat / 64)).getLsbD (type.toNat % 64 + 0) <;> simp_all

theorem maskHas_add {mask : Mask} {type : Int} (htype : typeValid type = true) (other : Int) :
    maskHas (maskAdd mask type) other = (decide (other = type) || maskHas mask other) := by
  by_cases hother : typeValid other = true
  · rw [maskHas_eq hother, maskHas_eq hother, maskAdd, if_pos htype]
    simp only [typeValid, Bool.and_eq_true, decide_eq_true_eq] at htype hother
    by_cases hword : other.toNat / 64 = type.toNat / 64
    · have hbit : other.toNat % 64 < 64 := Nat.mod_lt _ (by decide)
      have hsame : other = type ↔ other.toNat % 64 = type.toNat % 64 := by omega
      rw [if_pos hword, BitVec.getLsbD_or, BitVec.getLsbD_shiftLeft, BitVec.getLsbD_one]
      grind
    · have hne : other ≠ type := fun heq => hword (by rw [heq])
      rw [if_neg hword]
      simp [hne]
  · have hne : other ≠ type := fun heq => hother (by rw [heq]; exact htype)
    simp [maskHas, hother, hne]

theorem maskHas_zero (type : Int) : maskHas (fun _ => 0) type = false := by
  by_cases htype : typeValid type = true
  · rw [maskHas_eq htype]
    exact BitVec.getLsbD_zero
  · simp [maskHas, htype]

variable {mask after : Mask}

theorem addTypes_spec (h : addTypes mask types = some after) :
    (∀ type ∈ types, typeValid type = true) ∧
      ∀ type, maskHas after type = (decide (type ∈ types) || maskHas mask type) := by
  induction types generalizing mask with
  | nil =>
    cases h
    exact ⟨by simp, by simp⟩
  | cons type types ih =>
    rw [addTypes] at h
    split at h
    · next hvalid =>
      obtain ⟨hall, hmask⟩ := ih h
      refine ⟨fun other hother => ?_, fun other => ?_⟩
      · rcases List.mem_cons.mp hother with rfl | hother
        · exact hvalid
        · exact hall other hother
      · rw [hmask, maskHas_add hvalid]
        grind
    · cases h

theorem addDistinctTypes_spec (h : addDistinctTypes mask types = some after) :
    types.Nodup ∧ (∀ type ∈ types, typeValid type = true ∧ maskHas mask type = false) ∧
      ∀ type, maskHas after type = (decide (type ∈ types) || maskHas mask type) := by
  induction types generalizing mask with
  | nil =>
    cases h
    exact ⟨List.nodup_nil, by simp, by simp⟩
  | cons type types ih =>
    rw [addDistinctTypes] at h
    split at h
    · cases h
    · next hnew =>
      rw [not_or, Bool.not_eq_false, Bool.not_eq_true] at hnew
      obtain ⟨hvalid, hfree⟩ := hnew
      obtain ⟨hnodup, hall, hmask⟩ := ih h
      have hother : ∀ other ∈ types, other ≠ type ∧ maskHas mask other = false := by
        intro other hmem
        have hfalse := (hall other hmem).2
        rw [maskHas_add hvalid] at hfalse
        simpa using hfalse
      refine ⟨List.nodup_cons.mpr ⟨fun hmem => (hother type hmem).1 rfl, hnodup⟩,
        fun other hmem => ?_, fun other => ?_⟩
      · rcases List.mem_cons.mp hmem with rfl | hmem
        · exact ⟨hvalid, hfree⟩
        · exact ⟨(hall other hmem).1, (hother other hmem).2⟩
      · rw [hmask, maskHas_add hvalid]
        grind

/-! ## Slots -/

/-- An array in which some slots hold the snapshots of events. -/
def filled (slots : List Snapshot) (who : Nat → Option Event) : List Snapshot :=
  slots.mapIdx fun index slot => ((who index).map (store slot)).getD slot

theorem filled_none (slots : List Snapshot) : filled slots (fun _ => none) = slots := by
  refine List.ext_getElem? fun index => ?_
  rw [filled, List.getElem?_mapIdx]
  simp

variable {slots : List Snapshot}

theorem writeSlot_filled {index : Nat} {slot : Snapshot}
    (hslot : slots[index]? = some slot) (hlarge : snapshotSize ≤ slot.size)
    (who : Nat → Option Event) (event : Event) :
    writeSlot (filled slots who) index event =
      some (filled slots (Function.update who index (some event))) := by
  have hthere : (filled slots who)[index]? = some (((who index).map (store slot)).getD slot) := by
    rw [filled, List.getElem?_mapIdx, hslot]
    rfl
  have hsize : (((who index).map (store slot)).getD slot).size = slot.size := by
    cases who index <;> rfl
  have hstore : store (((who index).map (store slot)).getD slot) event = store slot event := by
    rw [store, hsize, store]
  rw [writeSlot, hthere]
  simp only [hsize, if_neg (Nat.not_lt.mpr hlarge), hstore, Option.some.injEq]
  refine List.ext_getElem? fun other => ?_
  rw [List.getElem?_set, filled, filled, List.getElem?_mapIdx, List.getElem?_mapIdx]
  by_cases hsame : index = other
  · subst hsame
    obtain ⟨hlt, heq⟩ := List.getElem?_eq_some_iff.mp hslot
    simp [hlt, heq]
  · simp [hsame, Ne.symm hsame]

theorem update_concat (events : List Event) (event : Event) :
    Function.update (fun index => events[index]?) events.length (some event) =
      fun index => (events ++ [event])[index]? := by
  funext index
  by_cases hlast : index = events.length
  · subst hlast
    simp
  · rw [Function.update_of_ne hlast]
    grind

/-- Enough slots that are large enough. -/
def Roomy (slots : List Snapshot) (count : Nat) : Prop :=
  ∀ index < count, ∃ slot, slots[index]? = some slot ∧ snapshotSize ≤ slot.size

theorem roomy_of_large {count : Nat} (hlength : ¬ slots.length < count)
    (hlarge : slotsLarge slots count = true) : Roomy slots count := by
  intro index hindex
  have hlt : index < slots.length := by omega
  have hmem : slots[index] ∈ slots.take count := by
    rw [List.mem_take_iff_getElem]
    exact ⟨index, by omega, rfl⟩
  refine ⟨slots[index], List.getElem?_eq_getElem hlt, ?_⟩
  simpa using List.all_eq_true.mp hlarge _ hmem

/-! ## One event -/

/-- A sequence waiter that was shown some events. -/
structure TakesSequence (types : List Int) (slots : List Snapshot) (events : List Event)
    (waiter : Waiter) : Prop where
  notQuorum : waiter.matchQuorum = false
  notCount : waiter.matchCount = false
  notSet : waiter.matchSet = false
  isSequence : waiter.matchSequence = true
  sequence : waiter.sequence = some types
  index : waiter.sequenceIndex = (greedy types events).length
  slots : waiter.sequenceSnapshots = filled slots fun index => (greedy types events)[index]?
  completed : waiter.completed = decide (types.length ≤ (greedy types events).length)
  sent : waiter.sent = if waiter.completed then 1 else 0

variable {events : List Event} {waiter : Waiter}

theorem sequence_step (hroomy : Roomy slots types.length)
    (h : TakesSequence types slots events waiter)
    (event : Event) (memory : Bool) :
    ∃ after, signalWaiter waiter event memory = some after ∧
      TakesSequence types slots (events ++ [event]) after := by
  have hconcat := greedy_concat types events event
  have hsame : ¬ types[(greedy types events).length]? = some event.type →
      greedy types (events ++ [event]) = greedy types events := by
    intro hother
    rw [hconcat, if_neg hother, List.append_nil]
  by_cases hdone : types.length ≤ (greedy types events).length
  · have hcompleted : waiter.completed = true := by rw [h.completed, decide_eq_true hdone]
    have hkept := hsame (by simp [List.getElem?_eq_none hdone])
    refine ⟨waiter, by rw [signalWaiter, if_pos hcompleted], ?_⟩
    refine { h with index := ?_, slots := ?_, completed := ?_ } <;> rw [hkept]
    · exact h.index
    · exact h.slots
    · exact h.completed
  · have hopen : waiter.completed = false := by rw [h.completed, decide_eq_false hdone]
    have hsignal : signalWaiter waiter event memory = signalSequence waiter event := by
      simp [signalWaiter, hopen, h.notQuorum, h.notCount, h.notSet, h.isSequence]
    rw [hsignal, signalSequence, h.sequence]
    simp only [h.index]
    by_cases htype : types[(greedy types events).length]? = some event.type
    · obtain ⟨slot, hslot, hlarge⟩ := hroomy (greedy types events).length (Nat.not_le.mp hdone)
      rw [if_pos htype] at hconcat ⊢
      rw [h.slots, writeSlot_filled hslot hlarge, update_concat, ← hconcat]
      have hlength : (greedy types events).length + 1 =
          (greedy types (events ++ [event])).length := by
        rw [hconcat, List.length_append, List.length_singleton]
      refine ⟨_, rfl, ?_⟩
      simp only [hlength]
      have hzero : waiter.sent = 0 := by rw [h.sent, hopen]; rfl
      by_cases hend : types.length ≤ (greedy types (events ++ [event])).length
      · rw [if_pos hend]
        exact ⟨h.notQuorum, h.notCount, h.notSet, h.isSequence, rfl, rfl, rfl,
          (decide_eq_true hend).symm, by simp [complete, hzero]⟩
      · rw [if_neg hend]
        exact ⟨h.notQuorum, h.notCount, h.notSet, h.isSequence, rfl, rfl, rfl,
          by simp [hopen, hend], h.sent⟩
    · rw [if_neg htype]
      have hkept := hsame htype
      refine ⟨waiter, rfl, ?_⟩
      refine { h with index := ?_, slots := ?_, completed := ?_ } <;> rw [hkept]
      · exact h.index
      · exact h.slots
      · exact h.completed

/-- A waiter that counts, and was shown some events; `taken` are those it took. -/
structure TakesCount (quorum : Bool) (types : List Int) (target : Nat) (slots : List Snapshot)
    (taken : List Event) (waiter : Waiter) : Prop where
  isQuorum : waiter.matchQuorum = quorum
  isCount : waiter.matchCount = !quorum
  wanted : waiter.countTarget = target
  typeMask : Holds waiter.typeMask types
  count : waiter.countCompleted = taken.length
  slots : waiter.countSnapshots = filled slots fun index => taken[index]?
  bound : taken.length ≤ target
  completed : waiter.completed = decide (target ≤ taken.length)
  sent : waiter.sent = if waiter.completed then 1 else 0

variable {target : Nat}

variable {taken : List Event}

theorem TakesCount.done {quorum : Bool} (h : TakesCount quorum types target slots taken waiter)
    (hdone : target ≤ taken.length) (event : Event) (memory : Bool) :
    signalWaiter waiter event memory = some waiter := by
  rw [signalWaiter, if_pos (by rw [h.completed, decide_eq_true hdone])]

variable {event : Event}

theorem count_take (hroomy : Roomy slots target)
    (h : TakesCount false types target slots taken waiter) (hopen : taken.length < target)
    (htype : event.type ∈ types) (memory : Bool) :
    ∃ after, signalWaiter waiter event memory = some after ∧
      TakesCount false types target slots (taken ++ [event]) after := by
  have hrunning : waiter.completed = false := by
    rw [h.completed, decide_eq_false (Nat.not_le.mpr hopen)]
  have hsignal : signalWaiter waiter event memory = signalCount waiter event := by
    simp [signalWaiter, hrunning, h.isQuorum, h.isCount]
  have hmask : maskHas waiter.typeMask event.type = true := by
    rw [h.typeMask, decide_eq_true htype]
  obtain ⟨slot, hslot, hlarge⟩ := hroomy taken.length hopen
  rw [hsignal, signalCount, if_pos ⟨hmask, by rw [h.count, h.wanted]; exact hopen⟩, h.slots,
    h.count, writeSlot_filled hslot hlarge, update_concat]
  have hlength : (taken ++ [event]).length = taken.length + 1 := List.length_append
  refine ⟨_, rfl, ?_⟩
  simp only [h.wanted]
  have hzero : waiter.sent = 0 := by rw [h.sent, hrunning]; rfl
  by_cases hend : target ≤ taken.length + 1
  · rw [if_pos hend]
    exact ⟨h.isQuorum, h.isCount, rfl, h.typeMask, hlength.symm, rfl, by omega,
      by simp [complete, hend], by simp [complete, hzero]⟩
  · rw [if_neg hend]
    exact ⟨h.isQuorum, h.isCount, rfl, h.typeMask, hlength.symm, rfl, by omega,
      by simp [hrunning, hend], h.sent⟩

/-- One event for a count. -/
theorem count_step (hroomy : Roomy slots target)
    (h : TakesCount false types target slots ((matching types events).take target) waiter)
    (event : Event) (memory : Bool) :
    ∃ after, signalWaiter waiter event memory = some after ∧
      TakesCount false types target slots ((matching types (events ++ [event])).take target)
        after := by
  rw [matching_concat]
  by_cases hdone : target ≤ (matching types events).length
  · rw [List.take_append_of_le_length hdone]
    exact ⟨waiter, h.done (by rw [List.length_take]; omega) event memory, h⟩
  · rw [List.take_of_length_le (by omega)] at h
    by_cases htype : event.type ∈ types
    · rw [if_pos htype, List.take_of_length_le (by simp; omega)]
      exact count_take hroomy h (Nat.not_le.mp hdone) htype memory
    · rw [if_neg htype, List.append_nil, List.take_of_length_le (by omega)]
      refine ⟨waiter, ?_, h⟩
      have hrunning : waiter.completed = false := by rw [h.completed, decide_eq_false hdone]
      have hmask : maskHas waiter.typeMask event.type = false := by
        rw [h.typeMask, decide_eq_false htype]
      simp [signalWaiter, hrunning, h.isQuorum, h.isCount, signalCount, hmask]

/-- One event for a quorum. -/
theorem quorum_step (hroomy : Roomy slots target)
    (h : TakesCount true types target slots ((firsts types events).take target) waiter)
    (hseen : Holds waiter.setSeenMask (((firsts types events).take target).map Event.type))
    (htypes : ∀ type ∈ types, typeValid type = true) (event : Event) (memory : Bool) :
    ∃ after, signalWaiter waiter event memory = some after ∧
      TakesCount true types target slots ((firsts types (events ++ [event])).take target) after ∧
      Holds after.setSeenMask
        (((firsts types (events ++ [event])).take target).map Event.type) := by
  rw [firsts_concat]
  by_cases hdone : target ≤ (firsts types events).length
  · have hkept : ((if event.type ∈ types ∧ event.type ∉ (firsts types events).map Event.type then
        firsts types events ++ [event] else firsts types events).take target) =
          (firsts types events).take target := by
      split
      · exact List.take_append_of_le_length hdone
      · rfl
    rw [hkept]
    exact ⟨waiter, h.done (by rw [List.length_take]; omega) event memory, h, hseen⟩
  · rw [List.take_of_length_le (by omega)] at h hseen
    have hrunning : waiter.completed = false := by rw [h.completed, decide_eq_false hdone]
    have hsignal : signalWaiter waiter event memory = signalQuorum waiter event := by
      simp [signalWaiter, hrunning, h.isQuorum]
    by_cases htake : event.type ∈ types ∧ event.type ∉ (firsts types events).map Event.type
    · rw [if_pos htake, List.take_of_length_le (by simp; omega), hsignal, signalQuorum]
      have hmask : maskHas waiter.typeMask event.type = true := by
        rw [h.typeMask, decide_eq_true htake.1]
      have hnew : maskHas waiter.setSeenMask event.type = false := by
        rw [hseen, decide_eq_false htake.2]
      have hopen : (firsts types events).length < target := Nat.not_le.mp hdone
      obtain ⟨slot, hslot, hlarge⟩ := hroomy (firsts types events).length hopen
      rw [if_pos ⟨hmask, hnew, by rw [h.count, h.wanted]; exact hopen⟩, h.slots, h.count,
        writeSlot_filled hslot hlarge, update_concat]
      have hlength : (firsts types events ++ [event]).length =
          (firsts types events).length + 1 := List.length_append
      have hadd : Holds (maskAdd waiter.setSeenMask event.type)
          ((firsts types events ++ [event]).map Event.type) := by
        intro type
        rw [maskHas_add (htypes _ htake.1), hseen]
        grind
      refine ⟨_, rfl, ?_⟩
      simp only [h.wanted]
      have hzero : waiter.sent = 0 := by rw [h.sent, hrunning]; rfl
      by_cases hend : target ≤ (firsts types events).length + 1
      · rw [if_pos hend]
        exact ⟨⟨h.isQuorum, h.isCount, rfl, h.typeMask, hlength.symm, rfl, by omega,
          by simp [complete, hend], by simp [complete, hzero]⟩, hadd⟩
      · rw [if_neg hend]
        exact ⟨⟨h.isQuorum, h.isCount, rfl, h.typeMask, hlength.symm, rfl, by omega,
          by simp [hrunning, hend], h.sent⟩, hadd⟩
    · rw [if_neg htake, List.take_of_length_le (by omega)]
      refine ⟨waiter, ?_, h, hseen⟩
      rw [hsignal, signalQuorum, if_neg]
      intro hall
      refine htake ⟨?_, ?_⟩
      · simpa [h.typeMask event.type] using hall.1
      · simpa [hseen event.type] using hall.2.1

/-- A set waiter that was shown some events. -/
structure TakesSet (types : List Int) (slots : List Snapshot) (events : List Event)
    (waiter : Waiter) : Prop where
  notQuorum : waiter.matchQuorum = false
  notCount : waiter.matchCount = false
  isSet : waiter.matchSet = true
  setTypes : waiter.setTypes = types
  typeMask : Holds waiter.typeMask types
  seenMask : Holds waiter.setSeenMask (occurred types events)
  count : waiter.setCompleted = (occurred types events).length
  slots : waiter.setSnapshots = filled slots (setEvent types events)
  completed : waiter.completed = decide (types.length ≤ (occurred types events).length)
  sent : waiter.sent = if waiter.completed then 1 else 0

theorem occurred_concat_old (h : event.type ∈ types → event.type ∈ events.map Event.type) :
    occurred types (events ++ [event]) = occurred types events ∧
      setEvent types (events ++ [event]) = setEvent types events := by
  constructor
  · refine List.filter_congr fun type htype => ?_
    grind
  · funext index
    rw [setEvent, setEvent]
    cases htype : types[index]? with
    | none => rfl
    | some type =>
      have hmem : type ∈ types := List.mem_of_getElem? htype
      simp only [Option.bind_some, List.find?_append]
      cases hfind : events.find? fun event => event.type = type with
      | some found => rfl
      | none =>
        have hother : event.type ≠ type := by
          intro heq
          obtain ⟨old, hold, hsame⟩ := List.mem_map.mp (h (heq ▸ hmem))
          have hnot := List.find?_eq_none.mp hfind old hold
          simp [hsame, heq] at hnot
        simp [hother]

theorem occurred_concat_new (hnodup : types.Nodup)
    (htype : event.type ∈ types) (hnew : event.type ∉ events.map Event.type) :
    (occurred types (events ++ [event])).length = (occurred types events).length + 1 ∧
      setEvent types (events ++ [event]) =
        Function.update (setEvent types events) (types.idxOf event.type) (some event) := by
  constructor
  · have hperm : (occurred types (events ++ [event])).Perm
        (event.type :: occurred types events) := by
      refine (List.perm_ext_iff_of_nodup (hnodup.filter _) (List.nodup_cons.mpr ⟨?_,
        hnodup.filter _⟩)).mpr fun type => ?_
      · grind
      · grind
    rw [hperm.length_eq, List.length_cons]
  · funext index
    by_cases hindex : index = types.idxOf event.type
    · have hlt := List.idxOf_lt_length_iff.mpr htype
      have hfind : (events.find? fun other => other.type = event.type) = none := by
        refine List.find?_eq_none.mpr fun other hother hsame => hnew ?_
        exact List.mem_map.mpr ⟨other, hother, by simpa using hsame⟩
      subst hindex
      rw [Function.update_self, setEvent, List.getElem?_eq_getElem hlt, List.getElem_idxOf hlt]
      simp [List.find?_append, hfind]
    · rw [Function.update_of_ne hindex, setEvent, setEvent]
      cases hget : types[index]? with
      | none => rfl
      | some type =>
        have hother : event.type ≠ type := by
          intro heq
          obtain ⟨hlt, hsame⟩ := List.getElem?_eq_some_iff.mp hget
          refine hindex ?_
          rw [heq, ← hsame, hnodup.idxOf_getElem]
        simp [List.find?_append, hother]

/-- One event for a set. -/
theorem set_step (hroomy : Roomy slots types.length)
    (hnodup : types.Nodup) (htypes : ∀ type ∈ types, typeValid type = true)
    (h : TakesSet types slots events waiter) (event : Event) (memory : Bool) :
    ∃ after, signalWaiter waiter event memory = some after ∧
      TakesSet types slots (events ++ [event]) after := by
  have hold : (event.type ∈ types → event.type ∈ events.map Event.type) →
      TakesSet types slots (events ++ [event]) waiter := by
    intro hseen
    obtain ⟨hoccurred, hevent⟩ := occurred_concat_old hseen
    refine { h with seenMask := ?_, count := ?_, slots := ?_, completed := ?_ }
    · rw [hoccurred]; exact h.seenMask
    · rw [hoccurred]; exact h.count
    · rw [hevent]; exact h.slots
    · rw [hoccurred]; exact h.completed
  by_cases hdone : types.length ≤ (occurred types events).length
  · have hcompleted : waiter.completed = true := by rw [h.completed, decide_eq_true hdone]
    refine ⟨waiter, by rw [signalWaiter, if_pos hcompleted], hold fun htype => ?_⟩
    -- as many types have occurred as there are, so each of them has
    have hall : occurred types events = types :=
      List.filter_sublist.eq_of_length_le hdone
    rw [← hall, occurred] at htype
    simpa using (List.mem_filter.mp htype).2
  · have hopen : waiter.completed = false := by rw [h.completed, decide_eq_false hdone]
    have hsignal : signalWaiter waiter event memory = signalSet waiter event := by
      simp [signalWaiter, hopen, h.notQuorum, h.notCount, h.isSet]
    by_cases htake : event.type ∈ types ∧ event.type ∉ events.map Event.type
    · obtain ⟨htype, hnew⟩ := htake
      obtain ⟨hlength, hevent⟩ := occurred_concat_new hnodup htype hnew
      have hmask : maskHas waiter.typeMask event.type = true := by
        rw [h.typeMask, decide_eq_true htype]
      have hunseen : maskHas waiter.setSeenMask event.type = false := by
        rw [h.seenMask, decide_eq_false]
        intro hmem
        exact hnew (by simpa using (List.mem_filter.mp hmem).2)
      have hlt := List.idxOf_lt_length_iff.mpr htype
      have hfind : types.findIdx? (· == event.type) = some (types.idxOf event.type) := by
        rw [List.findIdx?_eq_some_iff_findIdx_eq]
        exact ⟨hlt, rfl⟩
      obtain ⟨slot, hslot, hlarge⟩ := hroomy (types.idxOf event.type) hlt
      have hadd : Holds (maskAdd waiter.setSeenMask event.type)
          (occurred types (events ++ [event])) := by
        intro type
        rw [maskHas_add (htypes _ htype), h.seenMask]
        grind [occurred]
      rw [hsignal, signalSet, if_pos ⟨hmask, hunseen⟩, signalSetLoop, h.setTypes, hfind]
      simp only [h.slots, writeSlot_filled hslot hlarge, ← hevent, h.count, ← hlength]
      refine ⟨_, rfl, ?_⟩
      have hzero : waiter.sent = 0 := by rw [h.sent, hopen]; rfl
      by_cases hend : types.length ≤ (occurred types (events ++ [event])).length
      · rw [if_pos hend]
        exact ⟨h.notQuorum, h.notCount, h.isSet, rfl, h.typeMask, hadd, rfl, rfl,
          (decide_eq_true hend).symm, by simp [complete, hzero]⟩
      · rw [if_neg hend]
        exact ⟨h.notQuorum, h.notCount, h.isSet, rfl, h.typeMask, hadd, rfl, rfl,
          by simp [hopen, hend], h.sent⟩
    · have hseen : event.type ∈ types → event.type ∈ events.map Event.type := fun htype =>
        Classical.not_not.mp fun hnew => htake ⟨htype, hnew⟩
      refine ⟨waiter, ?_, hold hseen⟩
      rw [hsignal, signalSet, if_neg]
      intro hall
      have htype : event.type ∈ types := by simpa [h.typeMask event.type] using hall.1
      have hunseen := hall.2
      rw [h.seenMask, decide_eq_false_iff_not] at hunseen
      exact hunseen (List.mem_filter.mpr ⟨htype, by simpa using hseen htype⟩)

/-! ## Whole runs -/

/-- Events shown to a waiter, each with whether there is memory for a clone. -/
def signalAll (waiter : Waiter) : List (Event × Bool) → Option Waiter
  | [] => some waiter
  | (event, memory) :: rest =>
    match signalWaiter waiter event memory with
    | none => none
    | some waiter => signalAll waiter rest

theorem run_of_step {takes : List Event → Waiter → Prop}
    (hstep : ∀ events waiter, takes events waiter → ∀ event memory,
      ∃ after, signalWaiter waiter event memory = some after ∧ takes (events ++ [event]) after)
    {events : List Event} {waiter : Waiter} (h : takes events waiter)
    (shown : List (Event × Bool)) :
    ∃ after, signalAll waiter shown = some after ∧ takes (events ++ shown.map Prod.fst) after := by
  induction shown generalizing events waiter with
  | nil => exact ⟨waiter, rfl, by simpa using h⟩
  | cons head rest ih =>
    obtain ⟨event, memory⟩ := head
    obtain ⟨middle, hsignal, hmiddle⟩ := hstep events waiter h event memory
    obtain ⟨after, hrest, hafter⟩ := ih hmiddle
    refine ⟨after, by rw [signalAll, hsignal]; exact hrest, ?_⟩
    simpa using hafter

theorem signalAll_completed (h : waiter.completed = true)
    (shown : List (Event × Bool)) : signalAll waiter shown = some waiter := by
  induction shown with
  | nil => rfl
  | cons head rest ih =>
    rw [signalAll, signalWaiter, if_pos h]
    exact ih

theorem signalAll_append (waiter : Waiter) (shown more : List (Event × Bool)) :
    signalAll waiter (shown ++ more) =
      (signalAll waiter shown).bind fun after => signalAll after more := by
  induction shown generalizing waiter with
  | nil => rfl
  | cons head rest ih =>
    rw [List.cons_append, signalAll, signalAll]
    cases signalWaiter waiter head.1 head.2 with
    | none => rfl
    | some middle => exact ih middle

/-! ## Waiters that were set up -/

theorem setSequence_takes (h : setSequence .zero (some types) (some slots) = .ok waiter) :
    Roomy slots types.length ∧ TakesSequence types slots [] waiter := by
  rw [setSequence] at h
  split at h
  · cases h
  · next hsize =>
    split at h
    · next hvalid =>
      cases h
      rw [not_or] at hsize
      rw [Bool.and_eq_true] at hvalid
      have hpos := List.length_pos_of_ne_nil hsize.1
      refine ⟨roomy_of_large hsize.2 hvalid.2, rfl, rfl, rfl, rfl, rfl, ?_, ?_, ?_, rfl⟩
      · rw [greedy_nil]
        rfl
      · simp [greedy_nil, filled_none]
      · rw [greedy_nil]
        exact (decide_eq_false (Nat.not_le.mpr hpos)).symm
    · cases h

theorem setup_ok {refused large : Prop} [Decidable refused] [Decidable large]
    {added : Option Mask} {ready : Mask → Waiter}
    (h : (if refused then Except.error Status.invalidArg
      else match added with
        | some mask => if large then .ok (ready mask) else .error .invalidArg
        | none => .error .invalidArg) = .ok waiter) :
    ¬ refused ∧ large ∧ ∃ mask, added = some mask ∧ waiter = ready mask := by
  split at h
  · cases h
  · next hsize =>
    split at h
    · split at h
      · next hlarge =>
        cases h
        exact ⟨hsize, hlarge, _, rfl, rfl⟩
      · cases h
    · cases h

theorem setEventSet_takes (h : setEventSet .zero (some types) (some slots) = .ok waiter) :
    Roomy slots types.length ∧ types.Nodup ∧ (∀ type ∈ types, typeValid type = true) ∧
      TakesSet types slots [] waiter := by
  obtain ⟨hsize, hlarge, mask, hadd, rfl⟩ := setup_ok h
  rw [not_or] at hsize
  obtain ⟨hnodup, hvalid, hmask⟩ := addDistinctTypes_spec hadd
  have hpos := List.length_pos_of_ne_nil hsize.1
  have hnone : occurred types [] = [] := by simp [occurred]
  refine ⟨roomy_of_large hsize.2 hlarge, hnodup, fun type htype => (hvalid type htype).1,
    rfl, rfl, rfl, rfl, fun type => ?_, fun type => ?_, ?_, ?_, ?_, rfl⟩
  · rw [hmask, Waiter.zero, maskHas_zero, Bool.or_false]
  · rw [hnone]
    exact maskHas_zero type
  · rw [hnone]
    rfl
  · have hwho : setEvent types [] = fun _ => none := by
      funext index
      simp [setEvent]
    rw [hwho, filled_none]
  · rw [hnone]
    exact (decide_eq_false (Nat.not_le.mpr hpos)).symm

theorem setEventCount_takes
    (h : setEventCount .zero (some types) target (some slots) = .ok waiter) :
    Roomy slots target ∧
      TakesCount false types target slots ((matching types []).take target) waiter := by
  obtain ⟨hsize, hlarge, mask, hadd, rfl⟩ := setup_ok h
  rw [not_or, not_or] at hsize
  obtain ⟨-, hmask⟩ := addTypes_spec hadd
  have hnone : (matching types []).take target = [] := by simp [matching]
  rw [hnone]
  refine ⟨roomy_of_large hsize.2.2 hlarge, rfl, rfl, rfl, fun type => ?_, rfl, ?_,
    Nat.zero_le _, ?_, rfl⟩
  · rw [hmask, Waiter.zero, maskHas_zero, Bool.or_false]
  · simp [filled_none]
  · rw [decide_eq_false (by simp; omega)]
    rfl

theorem setEventQuorum_takes
    (h : setEventQuorum .zero (some types) target (some slots) = .ok waiter) :
    Roomy slots target ∧ types.Nodup ∧ (∀ type ∈ types, typeValid type = true) ∧
      TakesCount true types target slots ((firsts types []).take target) waiter ∧
      Holds waiter.setSeenMask (((firsts types []).take target).map Event.type) := by
  obtain ⟨hsize, hlarge, mask, hadd, rfl⟩ := setup_ok h
  rw [not_or, not_or, not_or] at hsize
  obtain ⟨hnodup, hvalid, hmask⟩ := addDistinctTypes_spec hadd
  have hnone : (firsts types []).take target = [] := by simp [firsts]
  rw [hnone]
  refine ⟨roomy_of_large hsize.2.2.2 hlarge, hnodup, fun type htype => (hvalid type htype).1,
    ⟨rfl, rfl, rfl, fun type => ?_, rfl, ?_, Nat.zero_le _, ?_, rfl⟩, fun type => ?_⟩
  · rw [hmask, Waiter.zero, maskHas_zero, Bool.or_false]
  · simp [filled_none]
  · rw [decide_eq_false (by simp; omega)]
    rfl
  · exact maskHas_zero type

/-! ## What each policy computes -/

/-- A waiter has done what its policy says: it is completed exactly when the policy is met, its
array holds the snapshots of the events it took, and nothing past the slots that were checked; it
was signalled once if it is completed, and then no later event changes it. -/
structure Computed (met : Prop) (slots : List Snapshot) (count : Nat) (who : Nat → Option Event)
    (array : List Snapshot) (waiter : Waiter) : Prop where
  completed : waiter.completed = true ↔ met
  snapshots : array = filled slots who
  inside : ∀ index, count ≤ index → array[index]? = slots[index]?
  signalled : waiter.sent = if waiter.completed then 1 else 0
  later : waiter.completed = true → ∀ shown, signalAll waiter shown = some waiter

theorem filled_inside {who : Nat → Option Event} {index : Nat}
    (h : who index = none) : (filled slots who)[index]? = slots[index]? := by
  rw [filled, List.getElem?_mapIdx, h]
  simp

theorem sequence_computes
    (h : setSequence .zero (some types) (some slots) = .ok waiter) (shown : List (Event × Bool)) :
    ∃ after, signalAll waiter shown = some after ∧
      Computed (types.Sublist ((shown.map Prod.fst).map Event.type)) slots types.length
        (fun index => (greedy types (shown.map Prod.fst))[index]?) after.sequenceSnapshots
        after := by
  obtain ⟨hroomy, htakes⟩ := setSequence_takes h
  obtain ⟨after, hrun, hafter⟩ := run_of_step
    (fun _ _ hwaiter => sequence_step hroomy hwaiter) htakes shown
  rw [List.nil_append] at hafter
  have hle := greedy_length_le types (shown.map Prod.fst)
  refine ⟨after, hrun, ?_, hafter.slots, fun index hindex => ?_, hafter.sent, signalAll_completed⟩
  · rw [hafter.completed, decide_eq_true_iff, ← greedy_complete]
    omega
  · rw [hafter.slots]
    exact filled_inside (List.getElem?_eq_none (by omega))

theorem set_computes
    (h : setEventSet .zero (some types) (some slots) = .ok waiter) (shown : List (Event × Bool)) :
    ∃ after, signalAll waiter shown = some after ∧
      Computed (∀ type ∈ types, type ∈ (shown.map Prod.fst).map Event.type) slots types.length
        (setEvent types (shown.map Prod.fst)) after.setSnapshots after := by
  obtain ⟨hroomy, hnodup, hvalid, htakes⟩ := setEventSet_takes h
  obtain ⟨after, hrun, hafter⟩ := run_of_step
    (fun _ _ hwaiter => set_step hroomy hnodup hvalid hwaiter) htakes shown
  rw [List.nil_append] at hafter
  refine ⟨after, hrun, ?_, hafter.slots, fun index hindex => ?_, hafter.sent, signalAll_completed⟩
  · rw [hafter.completed, decide_eq_true_iff]
    constructor
    · intro hall type htype
      have heq : occurred types (shown.map Prod.fst) = types :=
        List.filter_sublist.eq_of_length_le hall
      rw [← heq, occurred] at htype
      simpa using (List.mem_filter.mp htype).2
    · intro hall
      have heq : occurred types (shown.map Prod.fst) = types :=
        List.filter_eq_self.mpr fun type htype => by simpa using hall type htype
      exact Nat.le_of_eq (congrArg List.length heq.symm)
  · rw [hafter.slots]
    refine filled_inside ?_
    rw [setEvent, List.getElem?_eq_none hindex]
    rfl

theorem count_computes (h : setEventCount .zero (some types) target (some slots) = .ok waiter)
    (shown : List (Event × Bool)) :
    ∃ after, signalAll waiter shown = some after ∧
      Computed (target ≤ (matching types (shown.map Prod.fst)).length) slots target
        (fun index => ((matching types (shown.map Prod.fst)).take target)[index]?)
        after.countSnapshots after := by
  obtain ⟨hroomy, htakes⟩ := setEventCount_takes h
  obtain ⟨after, hrun, hafter⟩ := @run_of_step
    (fun events waiter =>
      TakesCount false types target slots ((matching types events).take target) waiter)
    (fun _ _ hwaiter => count_step hroomy hwaiter) _ _ htakes shown
  rw [List.nil_append] at hafter
  refine ⟨after, hrun, ?_, hafter.slots, fun index hindex => ?_, hafter.sent, signalAll_completed⟩
  · rw [hafter.completed, decide_eq_true_iff, List.length_take]
    omega
  · rw [hafter.slots]
    exact filled_inside (List.getElem?_eq_none (by rw [List.length_take]; omega))

theorem quorum_computes (h : setEventQuorum .zero (some types) target (some slots) = .ok waiter)
    (shown : List (Event × Bool)) :
    ∃ after, signalAll waiter shown = some after ∧
      Computed (target ≤ (occurred types (shown.map Prod.fst)).length) slots target
        (fun index => ((firsts types (shown.map Prod.fst)).take target)[index]?)
        after.countSnapshots after := by
  obtain ⟨hroomy, hnodup, hvalid, htakes⟩ := setEventQuorum_takes h
  obtain ⟨after, hrun, hafter, -⟩ := @run_of_step
    (fun events waiter =>
      TakesCount true types target slots ((firsts types events).take target) waiter ∧
        Holds waiter.setSeenMask (((firsts types events).take target).map Event.type))
    (fun _ _ hwaiter => quorum_step hroomy hwaiter.1 hwaiter.2 hvalid) _ _ htakes shown
  rw [List.nil_append] at hafter
  refine ⟨after, hrun, ?_, hafter.slots, fun index hindex => ?_, hafter.sent, signalAll_completed⟩
  · rw [hafter.completed, decide_eq_true_iff, List.length_take, ← firsts_length hnodup]
    omega
  · rw [hafter.slots]
    exact filled_inside (List.getElem?_eq_none (by rw [List.length_take]; omega))

/-! ## All the waiters of a bus -/

end

/-- The waiters that are registered: those of the four policies as their setup functions leave
them, and those of one type or of any of several. -/
inductive Accepted : Waiter → Prop
  | sequence {types slots waiter} :
      setSequence .zero (some types) (some slots) = .ok waiter → Accepted waiter
  | set {types slots waiter} :
      setEventSet .zero (some types) (some slots) = .ok waiter → Accepted waiter
  | count {types target slots waiter} :
      setEventCount .zero (some types) target (some slots) = .ok waiter → Accepted waiter
  | quorum {types target slots waiter} :
      setEventQuorum .zero (some types) target (some slots) = .ok waiter → Accepted waiter
  | single (type : Int) (kind : WaitKind) :
      Accepted { Waiter.zero with type := type, kind := kind }
  | any {kind types waiter} :
      setTypes { Waiter.zero with kind := kind } types = .ok waiter → Accepted waiter

/-- What a waiter is after some events: whatever setup function it comes from, what its policy
computes. -/
structure Computes (initial : Waiter) (shown : List (Event × Bool)) (after : Waiter) : Prop where
  run : signalAll initial shown = some after
  sequence : ∀ types slots, setSequence .zero (some types) (some slots) = .ok initial →
    Computed (types.Sublist ((shown.map Prod.fst).map Event.type)) slots types.length
      (fun index => (greedy types (shown.map Prod.fst))[index]?) after.sequenceSnapshots after
  set : ∀ types slots, setEventSet .zero (some types) (some slots) = .ok initial →
    Computed (∀ type ∈ types, type ∈ (shown.map Prod.fst).map Event.type) slots types.length
      (setEvent types (shown.map Prod.fst)) after.setSnapshots after
  count : ∀ types target slots, setEventCount .zero (some types) target (some slots) = .ok initial →
    Computed (target ≤ (matching types (shown.map Prod.fst)).length) slots target
      (fun index => ((matching types (shown.map Prod.fst)).take target)[index]?)
      after.countSnapshots after
  quorum : ∀ types target slots,
    setEventQuorum .zero (some types) target (some slots) = .ok initial →
    Computed (target ≤ (occurred types (shown.map Prod.fst)).length) slots target
      (fun index => ((firsts types (shown.map Prod.fst)).take target)[index]?)
      after.countSnapshots after

/-- A waiter of no policy. -/
def Plain (waiter : Waiter) : Prop :=
  waiter.matchQuorum = false ∧ waiter.matchCount = false ∧ waiter.matchSet = false ∧
    waiter.matchSequence = false

theorem plain_step {waiter : Waiter} (h : Plain waiter) (event : Event) (memory : Bool) :
    ∃ after, signalWaiter waiter event memory = some after ∧ Plain after := by
  obtain ⟨hquorum, hcount, hset, hsequence⟩ := h
  rw [signalWaiter]
  split
  · exact ⟨waiter, rfl, hquorum, hcount, hset, hsequence⟩
  · simp only [hquorum, hcount, hset, hsequence, Bool.false_eq_true, if_false]
    split
    · exact ⟨_, rfl, rfl, rfl, rfl, rfl⟩
    · exact ⟨waiter, rfl, hquorum, hcount, hset, hsequence⟩

theorem plain_runs {waiter : Waiter} (h : Plain waiter) (shown : List (Event × Bool)) :
    ∃ after, signalAll waiter shown = some after := by
  obtain ⟨after, hrun, -⟩ := @run_of_step (fun _ waiter => Plain waiter)
    (fun _ _ hwaiter => plain_step hwaiter) [] _ h shown
  exact ⟨after, hrun⟩

theorem setTypes_plain {kind : WaitKind} {types : Option (List Int)} {waiter : Waiter}
    (h : setTypes { Waiter.zero with kind := kind } types = .ok waiter) : Plain waiter := by
  unfold setTypes at h
  split at h
  · split at h
    · cases h
      exact ⟨rfl, rfl, rfl, rfl⟩
    · cases h
  · cases h

theorem accepted_runs {waiter : Waiter} (h : Accepted waiter) (shown : List (Event × Bool)) :
    ∃ after, signalAll waiter shown = some after := by
  cases h with
  | sequence h =>
    obtain ⟨after, hrun, -⟩ := sequence_computes h shown
    exact ⟨after, hrun⟩
  | set h =>
    obtain ⟨after, hrun, -⟩ := set_computes h shown
    exact ⟨after, hrun⟩
  | count h =>
    obtain ⟨after, hrun, -⟩ := count_computes h shown
    exact ⟨after, hrun⟩
  | quorum h =>
    obtain ⟨after, hrun, -⟩ := quorum_computes h shown
    exact ⟨after, hrun⟩
  | single type kind => exact plain_runs ⟨rfl, rfl, rfl, rfl⟩ shown
  | any h => exact plain_runs (setTypes_plain h) shown

theorem computes_of_run {initial after : Waiter} {shown : List (Event × Bool)}
    (hrun : signalAll initial shown = some after) : Computes initial shown after := by
  refine ⟨hrun, fun types slots h => ?_, fun types slots h => ?_, fun types target slots h => ?_,
    fun types target slots h => ?_⟩
  · obtain ⟨other, hother, hcomputed⟩ := sequence_computes h shown
    cases hrun.symm.trans hother
    exact hcomputed
  · obtain ⟨other, hother, hcomputed⟩ := set_computes h shown
    cases hrun.symm.trans hother
    exact hcomputed
  · obtain ⟨other, hother, hcomputed⟩ := count_computes h shown
    cases hrun.symm.trans hother
    exact hcomputed
  · obtain ⟨other, hother, hcomputed⟩ := quorum_computes h shown
    cases hrun.symm.trans hother
    exact hcomputed

/-- A waiter that is registered, and the events that were dispatched since. -/
structure History where
  address : Nat
  initial : Waiter
  shown : List (Event × Bool)

/-- A history with one more event. -/
def History.see (event : Event) (memory : Nat → Bool) (history : History) : History :=
  { history with shown := history.shown ++ [(event, memory history.address)] }

/-- The histories after a run. -/
def histories (past : List History) : List BusStep → List History
  | [] => past
  | .wait address waiter :: steps => histories (⟨address, waiter, []⟩ :: past) steps
  | .remove address :: steps =>
    histories (past.eraseP fun history => history.address = address) steps
  | .dispatch event memory :: steps => histories (past.map (History.see event memory)) steps

/-- A waiter on the bus is what its history makes of it. -/
def Follows (history : History) (entry : Nat × Waiter) : Prop :=
  entry.1 = history.address ∧ Accepted history.initial ∧
    signalAll history.initial history.shown = some entry.2

section

variable {past : List History} {waiters : Waiters} (h : List.Forall₂ Follows past waiters)
include h

theorem removeWaiter_follows (address : Nat) :
    List.Forall₂ Follows (past.eraseP fun history => history.address = address)
      (removeWaiter address waiters) := by
  induction h with
  | nil => exact .nil
  | @cons history entry past waiters hhead hrest ih =>
    rw [removeWaiter, List.eraseP_cons, hhead.1]
    by_cases hsame : history.address = address
    · rw [if_pos hsame, decide_eq_true hsame]
      exact hrest
    · rw [if_neg hsame, decide_eq_false hsame]
      exact .cons hhead ih

theorem signalWaiters_follows (event : Event) (memory : Nat → Bool) :
    ∃ after, signalWaiters event memory waiters = some after ∧
      List.Forall₂ Follows (past.map (History.see event memory)) after := by
  induction h with
  | nil => exact ⟨[], rfl, .nil⟩
  | @cons history entry past waiters hhead hrest ih =>
    obtain ⟨address, waiter⟩ := entry
    obtain ⟨rfl, haccepted, hrun⟩ := hhead
    obtain ⟨others, hothers, hall⟩ := ih
    obtain ⟨after, hafter⟩ := accepted_runs haccepted
      (history.shown ++ [(event, memory history.address)])
    have hone : signalWaiter waiter event (memory history.address) = some after := by
      rw [signalAll_append, hrun] at hafter
      rw [← hafter, Option.bind_some, signalAll]
      cases signalWaiter waiter event (memory history.address) <;> rfl
    refine ⟨(history.address, after) :: others, ?_, .cons ⟨rfl, haccepted, hafter⟩ hall⟩
    simp only [signalWaiters, hone, hothers]

theorem busRun_follows (steps : List BusStep)
    (haccepted : ∀ address waiter, .wait address waiter ∈ steps → Accepted waiter) :
    ∃ after, busRun waiters steps = some after ∧
      List.Forall₂ Follows (histories past steps) after := by
  induction steps generalizing past waiters with
  | nil => exact ⟨waiters, rfl, h⟩
  | cons step steps ih =>
    have hlater : ∀ address waiter, .wait address waiter ∈ steps → Accepted waiter :=
      fun address waiter hmem => haccepted address waiter (List.mem_cons_of_mem _ hmem)
    cases step with
    | wait address waiter =>
      have hwaiter := haccepted address waiter List.mem_cons_self
      exact ih (.cons ⟨rfl, hwaiter, rfl⟩ h) hlater
    | remove address => exact ih (removeWaiter_follows h address) hlater
    | dispatch event memory =>
      obtain ⟨middle, hmiddle, hfollows⟩ := signalWaiters_follows h event memory
      obtain ⟨after, hrun, hafter⟩ := ih hfollows hlater
      refine ⟨after, ?_, hafter⟩
      rw [busRun, busStep, hmiddle]
      exact hrun

end

/-- **Waiters compute their policies.**  In every run of the bus, whoever waits and is removed
meanwhile, each waiter is what its own policy makes of the events dispatched since it was
registered. -/
theorem waiters_compute (steps : List BusStep)
    (h : ∀ address waiter, .wait address waiter ∈ steps → Accepted waiter) :
    ∃ after, busRun [] steps = some after ∧
      List.Forall₂ (fun history entry => entry.1 = history.address ∧
        Computes history.initial history.shown entry.2) (histories [] steps) after := by
  obtain ⟨after, hrun, hafter⟩ := busRun_follows .nil steps h
  exact ⟨after, hrun, hafter.imp fun _ _ hentry => ⟨hentry.1, computes_of_run hentry.2.2⟩⟩

/-- A waiter for two buttons and a message, in this order. -/
def sampleSequence : Waiter :=
  { Waiter.zero with
    matchSequence := true
    sequence := some [7, 7, 2]
    sequenceSnapshots := List.replicate 3 { Snapshot.zero with size := snapshotSize } }

/-- A run where two waiters wait. -/
theorem waiters_compute_sample :
    ∃ after, busRun [] [.wait 1 sampleSequence, .dispatch (eventOf 7) fun _ => true,
        .wait 2 { Waiter.zero with type := 2, kind := .message },
        .dispatch (eventOf 2) fun _ => false] = some after ∧
      List.Forall₂ (fun history entry => entry.1 = history.address ∧
        Computes history.initial history.shown entry.2)
        (histories [] [.wait 1 sampleSequence, .dispatch (eventOf 7) fun _ => true,
          .wait 2 { Waiter.zero with type := 2, kind := .message },
          .dispatch (eventOf 2) fun _ => false]) after := by
  refine waiters_compute _ fun address waiter hmem => ?_
  simp only [List.mem_cons, BusStep.wait.injEq, reduceCtorEq, List.not_mem_nil, or_false,
    false_or] at hmem
  rcases hmem with ⟨rfl, rfl⟩ | ⟨rfl, rfl⟩
  · exact @Accepted.sequence [7, 7, 2]
      (List.replicate 3 { Snapshot.zero with size := snapshotSize }) _ rfl
  · exact .single 2 .message

end Dcc.Events
