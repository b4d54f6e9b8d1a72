import Dcc.Json.OptionTree

/-!
# The pool holds the tree

The parser of the options writes slots and owners in place, while arrays inside
arrays take lists of the same pool.  What it leaves behind is the tree of the
text: every array that was opened is in a list of its own, and no later array
touches it.

* `Keeps`: two pools agree but for some slots;
* `OptionsStored`: what each of the four functions does, from any pool, as one
  step of the induction on the fuel needs it;
* `options_law`: after any run of `options` members the pool holds the tree the
  text reads as, with the lists numbered upwards below 16.
-/

namespace Dcc.Json

variable {ν : Type}

/-! ## Writes -/

/-- The owner is not in a list from the given one on. -/
def OptionOwner.Below : OptionOwner → Nat → Prop
  | .interaction, _ => True
  | .slot list _, bound => list < bound

theorem OptionOwner.Below.mono {owner : OptionOwner} {bound bound' : Nat}
    (h : owner.Below bound) (hle : bound ≤ bound') : owner.Below bound' := by
  cases owner with
  | interaction => trivial
  | slot list index => exact Nat.lt_of_lt_of_le h hle

/-- Two pools show the interaction the same options and agree on every slot that is not
free. -/
structure Keeps (free : Nat → Nat → Prop) (pool pool' : OptionPool ν) : Prop where
  options : pool'.options = pool.options
  lists : ∀ l i, ¬ free l i → pool'.lists l i = pool.lists l i

namespace Keeps

variable {free free' : Nat → Nat → Prop} {pool pool' pool'' : OptionPool ν}

theorem refl (pool : OptionPool ν) : Keeps free pool pool := ⟨rfl, fun _ _ _ => rfl⟩

theorem trans (h : Keeps free pool pool') (h' : Keeps free pool' pool'') :
    Keeps free pool pool'' where
  options := h'.options.trans h.options
  lists l i hfree := (h'.lists l i hfree).trans (h.lists l i hfree)

theorem mono (h : Keeps free pool pool') (hfree : ∀ l i, free l i → free' l i) :
    Keeps free' pool pool' :=
  ⟨h.options, fun l i hnot => h.lists l i fun hl => hnot (hfree l i hl)⟩

end Keeps

namespace OptionPool

variable (pool : OptionPool ν) (owner : OptionOwner)

theorem lists_setSlot (list index : Nat) (slot : OptionSlot ν) (l i : Nat) :
    (pool.setSlot list index slot).lists l i =
      if l = list ∧ i = index then slot else pool.lists l i := by
  by_cases hl : l = list
  · subst hl
    by_cases hi : i = index
    · subst hi
      simp [setSlot]
    · simp [setSlot, hi]
  · simp [setSlot, hl]

@[simp] theorem lists_setSlot_self (list index : Nat) (slot : OptionSlot ν) :
    (pool.setSlot list index slot).lists list index = slot := by simp [setSlot]

@[simp] theorem listCount_setSlot (list index : Nat) (slot : OptionSlot ν) :
    (pool.setSlot list index slot).listCount = pool.listCount := rfl

@[simp] theorem listCount_setFields (list index : Nat) (fields : OptionFields ν) :
    (pool.setFields list index fields).listCount = pool.listCount := rfl

@[simp] theorem listCount_setView (options : OptionList) :
    (pool.setView owner options).listCount = pool.listCount := by
  cases owner <;> rfl

@[simp] theorem view_setView (options : OptionList) :
    (pool.setView owner options).view owner = options := by
  cases owner with
  | interaction => rfl
  | slot list index => simp [setView, view]

theorem keeps_setSlot (list index : Nat) (slot : OptionSlot ν) :
    Keeps (fun l i => l = list ∧ i = index) pool (pool.setSlot list index slot) :=
  ⟨rfl, fun l i hfree => by rw [lists_setSlot, if_neg hfree]⟩

theorem lists_setView {options : OptionList} {l : Nat} (h : owner.Below l) (i : Nat) :
    (pool.setView owner options).lists l i = pool.lists l i := by
  cases owner with
  | interaction => rfl
  | slot list index =>
    have hne : l ≠ list := Nat.ne_of_gt h
    rw [setView, lists_setSlot, if_neg fun h => hne h.1]

/-- The pool with the options of an owner set aside. -/
def forget : OptionPool ν := pool.setView owner .empty

theorem forget_setView (options : OptionList) :
    (pool.setView owner options).forget owner = pool.forget owner := by
  cases owner with
  | interaction => rfl
  | slot list index => simp [forget, setView, setSlot]

theorem lists_forget {l : Nat} (h : owner.Below l) (i : Nat) :
    (pool.forget owner).lists l i = pool.lists l i := pool.lists_setView owner h i

theorem fields_forget (l i : Nat) :
    ((pool.forget owner).lists l i).fields = (pool.lists l i).fields := by
  cases owner with
  | interaction => rfl
  | slot list index =>
    rw [forget, setView, lists_setSlot]
    by_cases hslot : l = list ∧ i = index
    · rw [if_pos hslot, hslot.1, hslot.2]
    · rw [if_neg hslot]

theorem keeps_noteFocused (free : Nat → Nat → Prop) (list index : Nat) :
    Keeps free pool (pool.noteFocused list index) := by
  unfold noteFocused
  split
  · exact ⟨rfl, fun _ _ _ => rfl⟩
  · exact Keeps.refl pool

@[simp] theorem listCount_noteFocused (list index : Nat) :
    (pool.noteFocused list index).listCount = pool.listCount := by
  unfold noteFocused
  split <;> rfl

@[simp] theorem view_noteFocused (list index : Nat) :
    (pool.noteFocused list index).view owner = pool.view owner := by
  unfold noteFocused
  split <;> cases owner <;> rfl

@[simp] theorem listCount_countItem (list index : Nat) :
    (pool.countItem owner list index).listCount = pool.listCount := by simp [countItem]

@[simp] theorem view_countItem (list index : Nat) :
    (pool.countItem owner list index).view owner = { pool.view owner with count := index + 1 } := by
  simp [countItem]

@[simp] theorem listCount_truncate : (pool.truncate owner).listCount = pool.listCount := by
  simp [truncate]

@[simp] theorem view_truncate :
    (pool.truncate owner).view owner = { pool.view owner with truncated := true } := by
  simp [truncate]

theorem forget_truncate : (pool.truncate owner).forget owner = pool.forget owner :=
  pool.forget_setView owner _

end OptionPool

namespace Keeps

variable {free : Nat → Nat → Prop} {pool pool' : OptionPool ν}

theorem forget (h : Keeps free pool pool') (owner : OptionOwner) :
    Keeps free (pool.forget owner) (pool'.forget owner) := by
  cases owner with
  | interaction => exact ⟨rfl, h.lists⟩
  | slot list index =>
    refine ⟨h.options, fun l i hfree => ?_⟩
    rw [OptionPool.forget, OptionPool.forget, OptionPool.setView, OptionPool.setView,
      OptionPool.lists_setSlot, OptionPool.lists_setSlot]
    by_cases hslot : l = list ∧ i = index
    · obtain ⟨rfl, rfl⟩ := hslot
      rw [if_pos ⟨rfl, rfl⟩, if_pos ⟨rfl, rfl⟩, h.lists _ _ hfree]
    · rw [if_neg hslot, if_neg hslot, h.lists _ _ hfree]

theorem of_forget_slot {list index : Nat}
    (h : Keeps free (pool.forget (.slot list index)) (pool'.forget (.slot list index))) :
    Keeps (fun l i => free l i ∨ l = list ∧ i = index) pool pool' := by
  refine ⟨h.options, fun l i hfree => ?_⟩
  obtain ⟨hfree, hslot⟩ := not_or.mp hfree
  have hlists := h.lists l i hfree
  rwa [OptionPool.forget, OptionPool.forget, OptionPool.setView, OptionPool.setView,
    OptionPool.lists_setSlot, OptionPool.lists_setSlot, if_neg hslot, if_neg hslot] at hlists

theorem view {owner : OptionOwner} (h : Keeps free pool pool')
    (howner : ∀ l i, owner = .slot l i → ¬ free l i) : pool'.view owner = pool.view owner := by
  cases owner with
  | interaction => exact h.options
  | slot list index => rw [OptionPool.view, h.lists _ _ (howner _ _ rfl), OptionPool.view]

theorem countItem (free : Nat → Nat → Prop) (owner : OptionOwner) (list index : Nat)
    (pool : OptionPool ν) :
    Keeps free (pool.forget owner) ((pool.countItem owner list index).forget owner) := by
  rw [OptionPool.countItem, ← pool.forget_setView owner]
  exact (OptionPool.keeps_noteFocused _ free list index).forget owner

theorem lists_of_forget {owner : OptionOwner} {l : Nat}
    (h : Keeps free (pool.forget owner) (pool'.forget owner)) (howner : owner.Below l) (i : Nat)
    (hfree : ¬ free l i) : pool'.lists l i = pool.lists l i := by
  have hlists := h.lists l i hfree
  rwa [pool.lists_forget owner howner, pool'.lists_forget owner howner] at hlists

end Keeps

/-! ## Held trees stay held -/

section Held

variable {left : Bytes → Bool} {pool pool' : OptionPool ν}

mutual

theorem OptionArray.Held.keep : ∀ {array : OptionArray ν}, array.Held left pool →
    (∀ l ∈ array.lists, ∀ i, pool'.lists l i = pool.lists l i) → array.Held left pool'
  | .absent, _, _ => trivial
  | .leftOut _, _, _ => trivial
  | .stored list items extra, h, hsame => by
      rw [OptionArray.lists, List.forall_mem_cons] at hsame
      exact ⟨h.1, h.2.keep hsame.1 hsame.2⟩

theorem OptionItems.Held.keep : ∀ {items : OptionItems ν} {list index : Nat},
    items.Held left pool list index → (∀ i, pool'.lists list i = pool.lists list i) →
      (∀ l ∈ items.lists, ∀ i, pool'.lists l i = pool.lists l i) → items.Held left pool' list index
  | .nil, _, _, _, _, _ => trivial
  | .cons option subs rest, list, index, h, hslots, hsame => by
      rw [OptionItems.lists, List.forall_mem_append] at hsame
      refine ⟨?_, h.2.1.keep hsame.1, h.2.2.keep hslots hsame.2⟩
      rw [hslots index]
      exact h.1

theorem OptionArrays.Held.keep : ∀ {arrays : OptionArrays ν}, arrays.Held left pool →
    (∀ l ∈ arrays.lists, ∀ i, pool'.lists l i = pool.lists l i) → arrays.Held left pool'
  | .nil, _, _ => trivial
  | .cons array rest, h, hsame => by
      rw [OptionArrays.lists, List.forall_mem_append] at hsame
      exact ⟨h.1.keep hsame.1, h.2.keep hsame.2⟩

end

end Held

/-! ## What the functions leave behind -/

/-- Every array that is not opened counts as left out, an empty one too. -/
def everyArray : Bytes → Bool := fun _ => true

/-- A slot of a list that was cleared. -/
def Blank [Zero ν] (slot : OptionSlot ν) : Prop :=
  slot.fields.option = (OptionFields.zero [] []).option ∧ slot.options = .empty

/-- An array was read for an owner: no list that was in use is touched. -/
structure ArrayStored (owner : OptionOwner) (pool pool' : OptionPool ν) (array : OptionArray ν) :
    Prop where
  view : pool'.view owner = array.view everyArray
  held : array.Held everyArray pool'
  keeps : Keeps (fun l _ => pool.listCount ≤ l) (pool.forget owner) (pool'.forget owner)

/-- The elements of a list from a place on were read for its owner. -/
structure ItemsStored (owner : OptionOwner) (list index : Nat) (pool pool' : OptionPool ν)
    (items : OptionItems ν) (extra : Nat) : Prop where
  length : items.length ≤ optionCap - index
  view : pool'.view owner = ⟨some list, (pool.view owner).count + items.length,
      (pool.view owner).truncated || decide (0 < extra)⟩
  held : items.Held everyArray pool' list index
  keeps : Keeps (fun l i => pool.listCount ≤ l ∨ l = list ∧ index ≤ i) (pool.forget owner)
    (pool'.forget owner)

/-- One option was read into its slot, where options may stand from `before`. -/
structure OptionStored (list index : Nat) (before : OptionList) (pool pool' : OptionPool ν)
    (option : InteractionOption ν) (subs : OptionArrays ν) : Prop where
  fields : (pool'.lists list index).fields.option = option
  options : (pool'.lists list index).options = subs.view everyArray before
  held : subs.Held everyArray pool'
  keeps : Keeps (fun l i => pool.listCount ≤ l ∨ l = list ∧ i = index) pool pool'

/-- What the four functions do with so much fuel. -/
structure OptionsStored [Zero ν] (strtod : Bytes → Option ν) (fuel : Nat) : Prop where
  array : ∀ {owner depth cur pool pool' rest}, owner.Below pool.listCount →
    optionArrayFuel strtod fuel owner depth cur pool = some (pool', rest) →
      ∃ array, readArrayFuel strtod fuel depth pool.listCount cur =
          some ⟨array, pool'.listCount, rest⟩ ∧ ArrayStored owner pool pool' array
  items : ∀ {owner list depth index cur pool pool' rest}, owner.Below list →
    list < pool.listCount → (∀ i, index ≤ i → Blank (pool.lists list i)) →
    (pool.view owner).list = some list →
    (index < optionCap → (pool.view owner).count = index) →
    optionItemsFuel strtod fuel owner list depth index cur pool = some (pool', rest) →
      ∃ items extra, readItemsFuel strtod fuel depth index pool.listCount cur =
          some ⟨(items, extra), pool'.listCount, rest⟩ ∧
        ItemsStored owner list index pool pool' items extra
  object : ∀ {list index depth cur pool pool' rest}, list < pool.listCount →
    Blank (pool.lists list index) →
    optionObjectFuel strtod fuel list index depth cur pool = some (pool', rest) →
      ∃ option subs, readObjectFuel strtod fuel depth pool.listCount cur =
          some ⟨(option, subs), pool'.listCount, rest⟩ ∧
        OptionStored list index .empty pool pool' option subs
  members : ∀ {list index depth state cur pool pool' rest}, list < pool.listCount →
    optionMembersFuel strtod fuel list index depth state cur pool = some (pool', rest) →
      ∃ option subs, readMembersFuel strtod fuel depth (pool.lists list index).fields state
          pool.listCount cur = some ⟨(option, subs), pool'.listCount, rest⟩ ∧
        OptionStored list index (pool.lists list index).options pool pool' option subs

theorem ArrayStored.of_setView (array : OptionArray ν) (owner : OptionOwner) (pool : OptionPool ν)
    (harray : array.Held everyArray (pool.setView owner (array.view everyArray))) :
    ArrayStored owner pool (pool.setView owner (array.view everyArray)) array where
  view := pool.view_setView owner _
  held := harray
  keeps := by
    rw [pool.forget_setView owner]
    exact Keeps.refl _

theorem ItemsStored.nil {owner : OptionOwner} {list index : Nat} {pool : OptionPool ν}
    (hview : (pool.view owner).list = some list) :
    ItemsStored owner list index pool pool .nil 0 where
  length := Nat.zero_le _
  view := by
    rw [← hview]
    simp [OptionItems.length]
  held := trivial
  keeps := Keeps.refl _

variable {items : OptionItems ν}

theorem ItemsStored.of_extra {owner : OptionOwner} {list index : Nat} {pool pool' : OptionPool ν}
    {extra : Nat} (hcap : optionCap ≤ index)
    (h : ItemsStored owner list (index + 1) (pool.truncate owner) pool' items extra) :
    ItemsStored owner list index pool pool' items (extra + 1) := by
  have hnone : items.length = 0 := by
    have hlength := h.length
    omega
  refine ⟨by omega, ?_, ?_, ?_⟩
  · rw [h.view, OptionPool.view_truncate]
    simp
  · cases items with
    | nil => trivial
    | cons option subs rest => cases hnone
  · have hkeeps := h.keeps
    rw [OptionPool.forget_truncate, OptionPool.listCount_truncate] at hkeeps
    refine hkeeps.mono fun l i hfree => ?_
    omega

theorem ItemsStored.of_option {owner : OptionOwner} {list index : Nat}
    {pool pool' pool'' : OptionPool ν} {option : InteractionOption ν} {subs : OptionArrays ν}
    {extra : Nat} (howner : owner.Below list)
    (hlist : list < pool.listCount) (hcap : index < optionCap)
    (hcount : (pool.view owner).count = index)
    (hsubs : Numbered subs.lists pool.listCount pool'.listCount)
    (hoption : OptionStored list index .empty pool pool' option subs)
    (h : ItemsStored owner list (index + 1) (pool'.countItem owner list index) pool'' items extra) :
    ItemsStored owner list index pool pool'' (.cons option subs items) extra := by
  have hle := hsubs.le
  have hview : pool'.view owner = pool.view owner := by
    refine hoption.keeps.view fun l i heq hfree => ?_
    subst heq
    have hl : l < list := howner
    omega
  -- From the option to the end of the list, slots of other lists in use and earlier slots stay.
  have hlater : Keeps (fun l i => pool'.listCount ≤ l ∨ l = list ∧ index + 1 ≤ i)
      (pool'.forget owner) (pool''.forget owner) := by
    have hkeeps := h.keeps
    rw [OptionPool.listCount_countItem] at hkeeps
    exact (Keeps.countItem _ owner list index pool').trans hkeeps
  have hslot : pool''.lists list index = pool'.lists list index :=
    hlater.lists_of_forget howner index (by omega)
  refine ⟨?_, ?_, ⟨?_, ?_, h.held⟩, ?_⟩
  · have hlength := h.length
    rw [OptionItems.length]
    omega
  · rw [h.view, OptionPool.view_countItem, hview, OptionItems.length]
    simp only [OptionList.mk.injEq, true_and, and_true]
    omega
  · rw [hslot]
    exact ⟨hoption.fields, hoption.options⟩
  · refine hoption.held.keep fun l hl i => ?_
    have hrange := hsubs.mem l hl
    exact hlater.lists_of_forget (howner.mono (by omega)) i (by omega)
  · refine ((hoption.keeps.forget owner).mono fun l i hfree => ?_).trans
      (hlater.mono fun l i hfree => ?_)
    · omega
    · omega

section Step

variable [Zero ν] {strtod : Bytes → Option ν} {fuel : Nat}

theorem keeps_openList (owner : OptionOwner) (pool : OptionPool ν) :
    Keeps (fun l _ => pool.listCount ≤ l) (pool.forget owner)
      ((pool.openList owner).forget owner) := by
  rw [OptionPool.openList, OptionPool.forget_setView]
  have hcleared : Keeps (fun l _ => pool.listCount ≤ l) pool
      { pool with
        listCount := pool.listCount + 1
        lists := Function.update pool.lists pool.listCount fun index =>
          (pool.lists pool.listCount index).cleared } := by
    refine ⟨rfl, fun l i hfree => ?_⟩
    have hne : l ≠ pool.listCount := by omega
    simp [hne]
  exact hcleared.forget owner

theorem blank_openList {owner : OptionOwner} {pool : OptionPool ν}
    (howner : owner.Below pool.listCount) (index : Nat) :
    Blank ((pool.openList owner).lists pool.listCount index) := by
  rw [OptionPool.openList, OptionPool.lists_setView _ owner howner]
  simp only [Function.update_self]
  exact ⟨rfl, rfl⟩

@[simp] theorem listCount_openList (owner : OptionOwner) (pool : OptionPool ν) :
    (pool.openList owner).listCount = pool.listCount + 1 := by simp [OptionPool.openList]

@[simp] theorem view_openList (owner : OptionOwner) (pool : OptionPool ν) :
    (pool.openList owner).view owner = ⟨some pool.listCount, 0, false⟩ := by
  rw [OptionPool.openList, OptionPool.view_setView]

section

variable (h : OptionsStored strtod fuel)
include h

theorem optionArray_stored_succ {owner : OptionOwner}
    {depth : Nat} {cur rest : Bytes} {pool pool' : OptionPool ν}
    (howner : owner.Below pool.listCount)
    (hparse : optionArrayFuel strtod (fuel + 1) owner depth cur pool = some (pool', rest)) :
    ∃ array, readArrayFuel strtod (fuel + 1) depth pool.listCount cur =
      some ⟨array, pool'.listCount, rest⟩ ∧ ArrayStored owner pool pool' array := by
  rw [optionArrayFuel] at hparse
  rw [readArrayFuel]
  cases hcur : skipWs cur with
  | nil =>
    rw [hcur] at hparse
    cases hparse
  | cons c p =>
    simp only [hcur] at hparse ⊢
    split_ifs at hparse with hopen hcap hclose
    · obtain ⟨rest, hskip, heq⟩ := Option.map_eq_some_iff.mp hparse
      cases heq
      refine ⟨.absent, ?_, ArrayStored.of_setView .absent owner pool trivial⟩
      rw [if_pos hopen, hskip, OptionPool.listCount_setView]
      rfl
    · obtain ⟨rest, hskip, heq⟩ := Option.map_eq_some_iff.mp hparse
      cases heq
      refine ⟨.leftOut (textBetween (c :: p) rest), ?_,
        ArrayStored.of_setView (.leftOut _) owner pool trivial⟩
      rw [if_neg hopen, if_pos hcap, hskip, OptionPool.listCount_setView]
      rfl
    · cases hparse
      refine ⟨.stored pool.listCount .nil 0, ?_, view_openList owner pool,
        ⟨Nat.zero_le _, trivial⟩, keeps_openList owner pool⟩
      rw [if_neg hopen, if_neg hcap, if_pos hclose, listCount_openList]
    · obtain ⟨items, extra, hread, hstored⟩ := h.items howner (by simp)
        (fun i _ => blank_openList howner i) (by simp) (by simp) hparse
      refine ⟨.stored pool.listCount items extra, ?_, ?_, ⟨hstored.length, hstored.held⟩, ?_⟩
      · rw [listCount_openList] at hread
        rw [if_neg hopen, if_neg hcap, if_neg hclose, hread]
        rfl
      · rw [hstored.view, view_openList, OptionArray.view]
        simp
      · refine (keeps_openList owner pool).trans (hstored.keeps.mono fun l i hfree => ?_)
        rw [listCount_openList] at hfree
        omega

theorem optionItems_stored_succ {owner : OptionOwner}
    {list depth index : Nat} {cur rest : Bytes} {pool pool' : OptionPool ν}
    (howner : owner.Below list) (hlist : list < pool.listCount)
    (hblank : ∀ i, index ≤ i → Blank (pool.lists list i))
    (hview : (pool.view owner).list = some list)
    (hcount : index < optionCap → (pool.view owner).count = index)
    (hparse : optionItemsFuel strtod (fuel + 1) owner list depth index cur pool =
      some (pool', rest)) :
    ∃ items extra, readItemsFuel strtod (fuel + 1) depth index pool.listCount cur =
        some ⟨(items, extra), pool'.listCount, rest⟩ ∧
      ItemsStored owner list index pool pool' items extra := by
  rw [optionItemsFuel, optionItem] at hparse
  rw [readItemsFuel]
  obtain ⟨⟨pool₁, rest₁⟩, hitem, hparse⟩ := Option.bind_eq_some_iff.mp hparse
  obtain ⟨⟨more, rest₂⟩, hafter, hparse⟩ := Option.bind_eq_some_iff.mp hparse
  simp only at hafter hparse
  by_cases hcap : optionCap ≤ index
  · rw [if_pos hcap] at hitem
    obtain ⟨rest₁, hskip, heq⟩ := Option.map_eq_some_iff.mp hitem
    cases heq
    rw [if_pos hcap, hskip, Option.bind_some, hafter, Option.bind_some]
    have hview' : ((pool.truncate owner).view owner).list = some list := by simp [hview]
    cases more with
    | true =>
      obtain ⟨items, extra, hread, hstored⟩ := h.items howner (by simpa using hlist)
        (fun i hi => by
          rw [OptionPool.truncate, OptionPool.lists_setView _ owner howner]
          exact hblank i (by omega)) hview' (by omega) hparse
      refine ⟨items, extra + 1, ?_, hstored.of_extra hcap⟩
      rw [OptionPool.listCount_truncate] at hread
      simp [hread]
    | false =>
      cases hparse
      exact ⟨.nil, 1, by simp, (ItemsStored.nil hview').of_extra hcap⟩
  · rw [if_neg hcap] at hitem
    obtain ⟨⟨pool₁, rest₁⟩, hobject, heq⟩ := Option.map_eq_some_iff.mp hitem
    cases heq
    obtain ⟨option, subs, hread, hoption⟩ := h.object hlist (hblank index (Nat.le_refl _)) hobject
    have hsubs := (readNumbered strtod fuel).object hread
    have hle : pool.listCount ≤ pool₁.listCount := hsubs.le
    have hitems : ∀ {pool'' : OptionPool ν} {items : OptionItems ν} {extra : Nat},
        ItemsStored owner list (index + 1) (pool₁.countItem owner list index) pool'' items extra →
          ItemsStored owner list index pool pool'' (.cons option subs items) extra :=
      ItemsStored.of_option howner hlist (by omega) (hcount (by omega)) hsubs hoption
    rw [if_neg hcap, hread, Option.bind_some, hafter, Option.bind_some]
    have hview' : ((pool₁.countItem owner list index).view owner).list = some list := by
      rw [OptionPool.view_countItem, hoption.keeps.view, hview]
      intro l i heq hfree
      subst heq
      have hl : l < list := howner
      omega
    cases more with
    | true =>
      obtain ⟨items, extra, hread, hstored⟩ := h.items howner (by simp; omega)
        (fun i hi => by
          have hslot : (pool₁.countItem owner list index).lists list i = pool.lists list i := by
            have hcounted := Keeps.countItem (fun _ _ => False) owner list index pool₁
            rw [hcounted.lists_of_forget howner i id, hoption.keeps.lists list i (by omega)]
          rw [hslot]
          exact hblank i (by omega)) hview' (by simp) hparse
      refine ⟨.cons option subs items, extra, ?_, hitems hstored⟩
      rw [OptionPool.listCount_countItem] at hread
      simp [hread]
    | false =>
      cases hparse
      exact ⟨.cons option subs .nil, 0, by simp, hitems (ItemsStored.nil hview')⟩

theorem optionObject_stored_succ {list index depth : Nat}
    {cur rest : Bytes} {pool pool' : OptionPool ν} (hlist : list < pool.listCount)
    (hblank : Blank (pool.lists list index))
    (hparse : optionObjectFuel strtod (fuel + 1) list index depth cur pool = some (pool', rest)) :
    ∃ option subs, readObjectFuel strtod (fuel + 1) depth pool.listCount cur =
        some ⟨(option, subs), pool'.listCount, rest⟩ ∧
      OptionStored list index .empty pool pool' option subs := by
  rw [optionObjectFuel] at hparse
  rw [readObjectFuel]
  have hwritten : ∀ slot, Keeps (fun l i => pool.listCount ≤ l ∨ l = list ∧ i = index) pool
      (pool.setSlot list index slot) := fun slot =>
    (pool.keeps_setSlot list index slot).mono fun _ _ => Or.inr
  cases hcur : skipWs cur with
  | nil =>
    rw [hcur] at hparse
    cases hparse
  | cons c p =>
    simp only [hcur] at hparse ⊢
    split_ifs at hparse with hopen hclose
    · obtain ⟨rest, hskip, heq⟩ := Option.map_eq_some_iff.mp hparse
      cases heq
      refine ⟨_, .nil, ?_, hblank.1, hblank.2, trivial, Keeps.refl _⟩
      rw [if_pos hopen, hskip]
      rfl
    · obtain ⟨fields, hfields, heq⟩ := Option.map_eq_some_iff.mp hparse
      cases heq
      refine ⟨fields.option, .nil, ?_, by simp, by simp [OptionArrays.view], trivial, hwritten _⟩
      rw [if_neg hopen, if_pos hclose, hfields]
      rfl
    · obtain ⟨option, subs, hread, hstored⟩ := h.members (by simpa using hlist) hparse
      simp only [OptionPool.lists_setSlot_self, OptionPool.listCount_setSlot] at hread hstored
      refine ⟨option, subs, ?_, hstored.fields, hstored.options, hstored.held,
        (hwritten _).trans hstored.keeps⟩
      rw [if_neg hopen, if_neg hclose, hread]

section

variable {list index depth : Nat} {state : OptionState} {cur rest : Bytes}
  {pool pool' : OptionPool ν} (hlist : list < pool.listCount)
include hlist

theorem optionAfterMember_stored (hparse : optionAfterMember strtod
      (fun cur => optionMembersFuel strtod fuel list index depth state cur pool)
      list index state cur pool = some (pool', rest)) :
    ∃ option subs, readAfterMember strtod
        (readMembersFuel strtod fuel depth (pool.lists list index).fields state pool.listCount)
        (pool.lists list index).fields state pool.listCount cur =
        some ⟨(option, subs), pool'.listCount, rest⟩ ∧
      OptionStored list index (pool.lists list index).options pool pool' option subs := by
  rw [optionAfterMember] at hparse
  rw [readAfterMember]
  obtain ⟨⟨more, rest₁⟩, hafter, hparse⟩ := Option.bind_eq_some_iff.mp hparse
  rw [hafter, Option.bind_some]
  cases more with
  | true => exact h.members hlist hparse
  | false =>
    obtain ⟨fields, hfields, heq⟩ := Option.map_eq_some_iff.mp hparse
    cases heq
    refine ⟨fields.option, .nil, ?_, ?_, ?_, trivial, ?_⟩
    · simp [hfields]
    · simp [OptionPool.setFields]
    · simp [OptionPool.setFields, OptionArrays.view]
    · exact (pool.keeps_setSlot list index _).mono fun _ _ => Or.inr

theorem optionMembers_stored_succ
    (hparse : optionMembersFuel strtod (fuel + 1) list index depth state cur pool =
      some (pool', rest)) :
    ∃ option subs, readMembersFuel strtod (fuel + 1) depth (pool.lists list index).fields state
        pool.listCount cur = some ⟨(option, subs), pool'.listCount, rest⟩ ∧
      OptionStored list index (pool.lists list index).options pool pool' option subs := by
  rw [optionMembersFuel] at hparse
  rw [readMembersFuel]
  obtain ⟨key, hkey, hparse⟩ := Option.bind_eq_some_iff.mp hparse
  obtain ⟨p, hcolon, hparse⟩ := Option.bind_eq_some_iff.mp hparse
  obtain ⟨⟨⟨pool₁, state₁⟩, rest₁⟩, hfield, hparse⟩ := Option.bind_eq_some_iff.mp hparse
  rw [hkey, Option.bind_some, hcolon, Option.bind_some]
  obtain ⟨⟨⟨fields, scalars⟩, moved⟩, hscalar, hfield⟩ := Option.bind_eq_some_iff.mp hfield
  rw [hscalar, Option.bind_some]
  cases moved with
  | some rest₁ =>
    cases hfield
    obtain ⟨option, subs, hread, hstored⟩ := optionAfterMember_stored h (by simpa using hlist)
      hparse
    simp only [OptionPool.setFields, OptionPool.lists_setSlot_self,
      OptionPool.listCount_setSlot] at hread hstored
    refine ⟨option, subs, hread, hstored.fields, hstored.options, hstored.held, ?_⟩
    exact ((pool.keeps_setSlot list index _).mono fun _ _ => Or.inr).trans hstored.keeps
  | none =>
    simp only at hfield ⊢
    by_cases hoptions : key.1 = .options
    · rw [if_pos hoptions] at hfield ⊢
      obtain ⟨⟨pool₁, rest₁⟩, hchild, heq⟩ := Option.map_eq_some_iff.mp hfield
      cases heq
      have howner : (OptionOwner.slot list index).Below pool.listCount := hlist
      obtain ⟨array, hread, harray⟩ := h.array howner hchild
      have hnumbered := (readNumbered strtod fuel).array hread
      have hle : pool.listCount ≤ pool₁.listCount := hnumbered.le
      have hfields : (pool₁.lists list index).fields = (pool.lists list index).fields := by
        have hslot := harray.keeps.lists list index (by omega)
        rw [← pool₁.fields_forget (.slot list index), hslot, pool.fields_forget]
      have hview : (pool₁.lists list index).options = array.view everyArray := harray.view
      obtain ⟨option, subs, hafter, hstored⟩ := optionAfterMember_stored h
        (Nat.lt_of_lt_of_le hlist hle) hparse
      rw [hfields] at hafter
      rw [hview] at hstored
      refine ⟨option, .cons array subs, ?_, hstored.fields, hstored.options,
        ⟨harray.held.keep fun l hl i => ?_, hstored.held⟩, ?_⟩
      · rw [hread, Option.bind_some, hafter]
        rfl
      · have hrange := hnumbered.mem l hl
        have hnot : ¬ (pool₁.listCount ≤ l ∨ l = list ∧ i = index) := by
          simp only at hrange
          omega
        exact hstored.keeps.lists l i hnot
      · refine harray.keeps.of_forget_slot.trans (hstored.keeps.mono fun l i hfree => ?_)
        omega
    · rw [if_neg hoptions] at hfield ⊢
      obtain ⟨rest₁, hskip, heq⟩ := Option.map_eq_some_iff.mp hfield
      cases heq
      rw [hskip, Option.bind_some]
      exact optionAfterMember_stored h hlist hparse

end

end

theorem optionsStored (strtod : Bytes → Option ν) (fuel : Nat) : OptionsStored strtod fuel := by
  induction fuel with
  | zero =>
    constructor
    · intro _ _ _ _ _ _ _ hparse
      rw [optionArrayFuel] at hparse
      cases hparse
    · intro _ _ _ _ _ _ _ _ _ _ _ _ _ hparse
      rw [optionItemsFuel] at hparse
      cases hparse
    · intro _ _ _ _ _ _ _ _ _ hparse
      rw [optionObjectFuel] at hparse
      cases hparse
    · intro _ _ _ _ _ _ _ _ _ hparse
      rw [optionMembersFuel] at hparse
      cases hparse
  | succ fuel ih =>
    exact ⟨optionArray_stored_succ ih, optionItems_stored_succ ih, optionObject_stored_succ ih,
      optionMembers_stored_succ ih⟩

/-! ## A whole payload -/

theorem eventOptions_append {fuel : Nat} (curs more : List Bytes) (pool : OptionPool ν) :
    parseEventOptions strtod fuel (curs ++ more) pool =
      (parseEventOptions strtod fuel curs pool).bind (parseEventOptions strtod fuel more) := by
  induction curs generalizing pool with
  | nil => rfl
  | cons cur curs ih =>
    rw [List.cons_append, parseEventOptions, parseEventOptions, Option.bind_assoc]
    exact congrArg _ (funext fun r => ih r.1)

theorem eventOptions_stored {curs : List Bytes} {pool pool' : OptionPool ν}
    (hparse : parseEventOptions strtod fuel curs pool = some pool') :
    (∃ arrays, readEvent strtod fuel curs pool.listCount = some (arrays, pool'.listCount) ∧
      arrays.Held everyArray pool' ∧ pool'.options = arrays.view everyArray pool.options) ∧
    ∀ l < pool.listCount, ∀ i, pool'.lists l i = pool.lists l i := by
  induction curs generalizing pool with
  | nil =>
    cases hparse
    exact ⟨⟨.nil, rfl, trivial, rfl⟩, fun _ _ _ => rfl⟩
  | cons cur curs ih =>
    obtain ⟨⟨pool₁, rest⟩, hroot, hparse⟩ := Option.bind_eq_some_iff.mp hparse
    have hroot' : optionArrayFuel strtod fuel .interaction 0 cur
        { pool with focusedOption := none } = some (pool₁, rest) := hroot
    have howner : OptionOwner.interaction.Below
        (OptionPool.listCount { pool with focusedOption := none }) := trivial
    obtain ⟨array, hread, harray⟩ := (optionsStored strtod fuel).array howner hroot'
    have hnumbered := (readNumbered strtod fuel).array hread
    have hle : pool.listCount ≤ pool₁.listCount := hnumbered.le
    obtain ⟨⟨arrays, hrest, hheld, hview⟩, hsame⟩ := ih hparse
    refine ⟨⟨.cons array arrays, ?_, ⟨harray.held.keep fun l hl i => ?_, hheld⟩, ?_⟩,
      fun l hl i => ?_⟩
    · have hread' : readArrayFuel strtod fuel 0 pool.listCount cur =
          some ⟨array, pool₁.listCount, rest⟩ := hread
      rw [readEvent, hread', Option.bind_some, hrest]
      rfl
    · have hrange := hnumbered.mem l hl
      exact hsame l hrange.2 i
    · have hshown : pool₁.options = array.view everyArray := harray.view
      rw [hview, hshown]
      rfl
    · rw [hsame l (Nat.lt_of_lt_of_le hl hle) i]
      have hkept : ¬ pool.listCount ≤ l := Nat.not_le_of_lt hl
      exact harray.keeps.lists l i hkept

/-- **The pool holds the tree.**  Where a payload is parsed, its options are the tree its
text reads as: the lists of the arrays are numbered upwards in the order of the text, all
below 16, so no two share one; the pool holds every array, with at most 25 options in the
order of the text, each with the arrays of its own; and what a prefix of the text had
stored is still there. -/
theorem options_law {curs : List Bytes} {pool : OptionPool ν}
    (hparse : parseEventOptions strtod fuel curs .zero = some pool) :
    (∃ arrays, readEvent strtod fuel curs 0 = some (arrays, pool.listCount) ∧
      (arrays.lists.Pairwise (· < ·) ∧ ∀ l ∈ arrays.lists, l < pool.listCount) ∧
      arrays.Held everyArray pool ∧ pool.options = arrays.view everyArray .empty) ∧
    pool.listCount ≤ optionListCap ∧
    ∀ done more stored, curs = done ++ more →
      parseEventOptions strtod fuel done .zero = some stored →
        ∀ l < stored.listCount, ∀ i, pool.lists l i = stored.lists l i := by
  obtain ⟨⟨arrays, hread, hheld, hview⟩, -⟩ := eventOptions_stored hparse
  have hnumbered := readEvent_numbered hread
  refine ⟨⟨arrays, hread, ⟨hnumbered.sorted, fun l hl => (hnumbered.mem l hl).2⟩, hheld, hview⟩,
    hnumbered.cap (Nat.zero_le _), fun done more stored hcurs hdone => ?_⟩
  rw [hcurs, eventOptions_append, hdone, Option.bind_some] at hparse
  exact (eventOptions_stored hparse).2

end Step

/-- No text is a number. -/
def noNumber : Bytes → Option Nat := fun _ => none

/-- `[{"options":[{}]},{}]`. -/
def nestedOptions : Bytes :=
  [0x5b, 0x7b, 0x22, 0x6f, 0x70, 0x74, 0x69, 0x6f, 0x6e, 0x73, 0x22, 0x3a, 0x5b, 0x7b, 0x7d, 0x5d,
    0x7d, 0x2c, 0x7b, 0x7d, 0x5d]

/-- Two lists, the second for the option of the first. -/
theorem options_law_nested : ∃ pool,
    parseEventOptions noNumber 20 [nestedOptions] .zero = some pool ∧
      (∃ arrays, readEvent noNumber 20 [nestedOptions] 0 = some (arrays, pool.listCount) ∧
        arrays.Held everyArray pool) ∧
      pool.listCount ≤ optionListCap := by
  have hsome : (parseEventOptions noNumber 20 [nestedOptions] .zero).isSome = true := by
    decide +kernel
  obtain ⟨pool, hpool⟩ := Option.isSome_iff_exists.mp hsome
  obtain ⟨⟨arrays, hread, -, hheld, -⟩, hcap, -⟩ := options_law hpool
  exact ⟨pool, hpool, ⟨arrays, hread, hheld⟩, hcap⟩

/-- The array has an element. -/
def holdsElement (text : Bytes) : Bool :=
  decide ((skipWs (text.drop 1)).head? ≠ some chRBracket)

/-- Five arrays, one in the other, the last of them empty: `[{"options":[...]}]`. -/
def emptyFifth : Bytes :=
  let opened := [0x5b, 0x7b, 0x22, 0x6f, 0x70, 0x74, 0x69, 0x6f, 0x6e, 0x73, 0x22, 0x3a]
  opened ++ opened ++ opened ++ opened ++
    [0x5b, 0x5d, 0x7d, 0x5d, 0x7d, 0x5d, 0x7d, 0x5d, 0x7d, 0x5d]

/-- An empty array at the fifth level sets the flag, though nothing is left out. -/
theorem empty_array_truncated :
    ¬ ∀ (fuel : Nat) (curs : List Bytes) (pool : OptionPool Nat) (arrays : OptionArrays Nat),
      parseEventOptions noNumber fuel curs .zero = some pool →
        readEvent noNumber fuel curs 0 = some (arrays, pool.listCount) →
          arrays.Held holdsElement pool := by
  intro hall
  have hsome : (parseEventOptions noNumber 60 [emptyFifth] .zero).isSome = true := by
    decide +kernel
  obtain ⟨pool, hpool⟩ := Option.isSome_iff_exists.mp hsome
  obtain ⟨⟨arrays, hread, hheld, -⟩, -⟩ := eventOptions_stored hpool
  have hclaimed := hall 60 [emptyFifth] pool arrays hpool hread
  obtain ⟨o₀, o₁, o₂, o₃, htree⟩ : ∃ o₀ o₁ o₂ o₃, readEvent noNumber 60 [emptyFifth] 0 =
      some (.cons (.stored 0 (.cons o₀ (.cons (.stored 1 (.cons o₁ (.cons (.stored 2 (.cons o₂
        (.cons (.stored 3 (.cons o₃ (.cons (.leftOut [0x5b, 0x5d]) .nil) .nil) 0) .nil) .nil) 0)
        .nil) .nil) 0) .nil) .nil) 0) .nil, 4) :=
    ⟨_, _, _, _, by with_unfolding_all rfl⟩
  have hread' : readEvent noNumber 60 [emptyFifth] 0 = some (arrays, pool.listCount) := hread
  rw [htree] at hread'
  obtain ⟨harrays, -⟩ := Prod.mk.inj (Option.some.inj hread')
  -- The option of the fourth list shows what its owner was given for the fifth array.
  have hshown : ∀ {left : Bytes → Bool}, arrays.Held left pool →
      (pool.lists 3 0).options = ⟨none, 0, left [0x5b, 0x5d]⟩ := by
    intro left h
    rw [← harrays] at h
    have h₁ := h.1.2.2.1.1
    have h₂ := h₁.2.2.1.1
    have h₃ := h₂.2.2.1.1
    exact h₃.2.1.2
  have heq := (hshown hheld).symm.trans (hshown hclaimed)
  revert heq
  decide +kernel

end Dcc.Json
