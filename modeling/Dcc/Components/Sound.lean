import Dcc.Components.Validate

/-!
# The first pass over components

The ids that the first pass has met are those of the components so far, in order, so a component
that is accepted has none of them.  The rules about rows, sections and labels are checked at each
component.

* `Passed` — what the first pass has found out about some components;
* `passed_self` — one component that is accepted;
* `validateOne_ok` — the first pass, by induction over the tree.
-/

namespace Dcc.Components

/-! ## Checks -/

variable {u : Unit}

theorem require_ok {condition : Bool} (h : require condition = .ok u) :
    condition = true := by
  rw [require] at h
  split at h
  · assumption
  · cases h

/-- The custom id of a component. -/
def Builder.customId (b : Builder) : Option Bytes := b.head.view.customId

/-- The id of a component that has one other than zero. -/
def Builder.nonzeroId (b : Builder) : Option UInt32 :=
  if b.head.has .id = true ∧ b.head.id ≠ 0 then some b.head.id else none

/-- An action row holds one to five buttons or one select. -/
def RowRule (children : List Builder) : Prop :=
  (1 ≤ children.length ∧ children.length ≤ 5 ∧ ∀ child ∈ children, child.type = .button) ∨
    ∃ child, children = [child] ∧ child.type.isSelect = true

/-- What the first pass checks about the components that a component holds. -/
structure Rules (b : Builder) : Prop where
  row : b.type = .actionRow → RowRule b.children.list
  texts : b.type = .sectionType → ∀ child ∈ b.children.list, child.type = .textDisplay
  accessory : b.type = .sectionType →
    ∃ a, b.accessory = some a ∧ (a.type = .button ∨ a.type = .thumbnail)
  input : b.type = .label → ∃ child, b.children.list = [child] ∧ child.type.isInput = true

/-- The ids that were met are distinct and within the limits. -/
structure Validation.Fits (ctx : Validation) : Prop where
  customIds : ctx.customIds.Nodup
  lengths : ∀ text ∈ ctx.customIds, 1 ≤ text.length ∧ text.length ≤ 100
  ids : ctx.ids.Nodup
  total : ctx.totalCount ≤ maxComponents

/-- What the first pass has found out about some components. -/
structure Passed (ctx ctx' : Validation) (bs : List Builder) : Prop where
  customIds : ctx'.customIds = ctx.customIds ++ bs.filterMap Builder.customId
  ids : ctx'.ids = ctx.ids ++ bs.filterMap Builder.nonzeroId
  total : ctx'.totalCount = ctx.totalCount + bs.length
  fits : ctx.Fits → ctx'.Fits
  rules : ∀ b ∈ bs, Rules b

theorem Passed.nil (ctx : Validation) : Passed ctx ctx [] :=
  ⟨by simp, by simp, rfl, id, fun b hb => by cases hb⟩

theorem Passed.trans {ctx ctx' ctx'' : Validation} {bs cs : List Builder} (h : Passed ctx ctx' bs)
    (h' : Passed ctx' ctx'' cs) : Passed ctx ctx'' (bs ++ cs) where
  customIds := by rw [h'.customIds, h.customIds, List.filterMap_append, List.append_assoc]
  ids := by rw [h'.ids, h.ids, List.filterMap_append, List.append_assoc]
  total := by rw [h'.total, h.total, List.length_append, Nat.add_assoc]
  fits := fun hfits => h'.fits (h.fits hfits)
  rules := by
    intro b hb
    rcases List.mem_append.mp hb with hb | hb
    · exact h.rules b hb
    · exact h'.rules b hb

/-! ## One component -/

variable {ctx ctx' : Validation}

theorem validateCustomId_ok {customId : Option Bytes}
    (h : validateCustomId ctx customId = .ok ctx') :
    ∃ text, customId = some text ∧ 1 ≤ text.length ∧ text.length ≤ 100 ∧ text ∉ ctx.customIds ∧
      ctx' = { ctx with customIds := ctx.customIds ++ [text] } := by
  cases customId with
  | none => cases h
  | some text =>
    rw [validateCustomId] at h
    split_ifs at h with hlimits hmet
    cases h
    exact ⟨text, rfl, by omega, by omega, by simpa using hmet, rfl⟩

theorem validateId_ok {id : UInt32} (h : validateId ctx id = .ok ctx') :
    (id = 0 ∧ ctx' = ctx) ∨
      (id ≠ 0 ∧ id ∉ ctx.ids ∧ ctx' = { ctx with ids := ctx.ids ++ [id] }) := by
  rw [validateId] at h
  split_ifs at h with hzero hfull hmet
  · cases h
    exact Or.inl ⟨hzero, rfl⟩
  · cases h
    exact Or.inr ⟨hzero, by simpa using hmet, rfl⟩

/-- A component has a custom id that was accepted, or none. -/
def TakesCustomId (customId : Option Bytes) (ctx ctx' : Validation) : Prop :=
  (customId = none ∧ ctx' = ctx) ∨ validateCustomId ctx customId = .ok ctx'

theorem nodup_concat {α : Type} {l : List α} {a : α} (h : l.Nodup) (ha : a ∉ l) :
    (l ++ [a]).Nodup := by
  refine List.nodup_append.mpr ⟨h, by simp, ?_⟩
  intro x hx y hy heq
  rw [List.mem_singleton.mp hy] at heq
  exact ha (heq ▸ hx)

/-- **One component that is accepted**: its ids are new, and it is one more. -/
theorem passed_self {b : Builder} {ctx ctx₁ ctx₂ : Validation}
    (hcount : ctx.totalCount < maxComponents) (hself : validateSelf b.head ctx = .ok ctx₁)
    (hcustom : TakesCustomId b.customId ctx₁ ctx₂) (hrules : Rules b) : Passed ctx ctx₂ [b] := by
  have hid : ctx₁.customIds = ctx.customIds ∧ ctx₁.totalCount = ctx.totalCount + 1 ∧
      ctx₁.ids = ctx.ids ++ [b].filterMap Builder.nonzeroId ∧
      (ctx.ids.Nodup → ctx₁.ids.Nodup) := by
    simp only [validateSelf, view_hasId, view_id] at hself
    split_ifs at hself with hhas
    · rcases validateId_ok hself with ⟨hzero, rfl⟩ | ⟨hne, hnew, rfl⟩
      · simp [Builder.nonzeroId, hzero]
      · refine ⟨rfl, rfl, ?_, fun hnodup => nodup_concat hnodup hnew⟩
        simp [Builder.nonzeroId, hhas, hne]
    · cases hself
      simp [Builder.nonzeroId, hhas]
  obtain ⟨hcustomIds, htotal, hids, hnodup⟩ := hid
  rcases hcustom with ⟨hnone, rfl⟩ | hcustom
  · refine ⟨?_, hids, by rw [htotal]; rfl, ?_, ?_⟩
    · simp [hcustomIds, hnone]
    · intro hfits
      refine ⟨by rw [hcustomIds]; exact hfits.customIds, by rw [hcustomIds]; exact hfits.lengths,
        hnodup hfits.ids, by omega⟩
    · intro b' hb'
      rw [List.mem_singleton.mp hb']
      exact hrules
  · obtain ⟨text, htext, hpos, hle, hnew, rfl⟩ := validateCustomId_ok hcustom
    rw [hcustomIds] at hnew
    refine ⟨?_, hids, by simp only [htotal]; rfl, ?_, ?_⟩
    · simp [hcustomIds, htext]
    · intro hfits
      refine ⟨?_, ?_, hnodup hfits.ids, by simp only; omega⟩
      · simp only [hcustomIds]
        exact nodup_concat hfits.customIds hnew
      · intro text' hmem
        simp only [hcustomIds] at hmem
        rcases List.mem_append.mp hmem with hmem | hmem
        · exact hfits.lengths text' hmem
        · rw [List.mem_singleton.mp hmem]
          exact ⟨hpos, hle⟩
    · intro b' hb'
      rw [List.mem_singleton.mp hb']
      exact hrules

/-! ## The checks of the types -/

theorem scanRow_ok {count : Nat} {hasSelect : Bool} {types : List ComponentType}
    (h : scanRow count hasSelect types = .ok u) :
    ∀ type ∈ types, type = .button ∨ (type.isSelect = true ∧ count = 1) := by
  induction types generalizing hasSelect with
  | nil => exact fun type htype => by cases htype
  | cons first types ih =>
    rw [scanRow] at h
    intro type hmem
    split_ifs at h with hbutton hafter hselect hmany
    · rcases List.mem_cons.mp hmem with rfl | hmem
      · exact Or.inl hbutton
      · exact ih h type hmem
    · rcases List.mem_cons.mp hmem with rfl | hmem
      · exact Or.inr ⟨hselect, by simpa using hmany⟩
      · exact ih h type hmem

variable {children : Span Builder}

variable {abi : Abi}

theorem checkActionRow_ok (h : checkActionRow abi children = .ok u) : RowRule children.list := by
  obtain ⟨_, hcount, h⟩ := bind_ok h
  obtain ⟨stride, -, hscan⟩ := bind_ok h
  have hcount := require_ok hcount
  simp only [Bool.and_eq_true, decide_eq_true_eq] at hcount
  obtain ⟨⟨hpos, hle⟩, hnull⟩ := hcount
  cases children with
  | null count => cases hnull
  | items address list =>
    have hlength : 1 ≤ list.length := Nat.one_le_iff_ne_zero.mpr hpos
    have htypes : ∀ child ∈ list, child.type = .button ∨
        (child.type.isSelect = true ∧ list.length = 1) :=
      fun child hchild => scanRow_ok hscan child.type (List.mem_map_of_mem hchild)
    by_cases hall : ∀ child ∈ list, child.type = .button
    · exact Or.inl ⟨hlength, hle, hall⟩
    · right
      push Not at hall
      obtain ⟨child, hchild, hne⟩ := hall
      obtain ⟨hselect, hone⟩ := (htypes child hchild).resolve_left hne
      obtain ⟨only, rfl⟩ := List.length_eq_one_iff.mp hone
      rw [List.mem_singleton.mp hchild] at hselect
      exact ⟨only, rfl, hselect⟩

variable {accessory : Option Builder}

theorem checkSection_ok (h : checkSection abi children accessory = .ok u) :
    (∀ child ∈ children.list, child.type = .textDisplay) ∧
      ∃ a, accessory = some a ∧ (a.type = .button ∨ a.type = .thumbnail) := by
  obtain ⟨-, -, h⟩ := bind_ok h
  obtain ⟨stride, -, h⟩ := bind_ok h
  obtain ⟨_, htexts, haccessory⟩ := bind_ok h
  have htexts := require_ok htexts
  have haccessory := require_ok haccessory
  refine ⟨by simpa using htexts, ?_⟩
  cases accessory with
  | none => cases haccessory
  | some a => exact ⟨a, rfl, by simpa using haccessory⟩

variable {view : View}

theorem checkLabel_ok (h : checkLabel view children = .ok u) :
    ∃ child, children.list = [child] ∧ child.type.isInput = true := by
  obtain ⟨_, hcount, hinput⟩ := bind_ok h
  have hcount := require_ok hcount
  have hinput := require_ok hinput
  simp only [Bool.and_eq_true, decide_eq_true_eq] at hcount
  obtain ⟨⟨-, hone⟩, hnull⟩ := hcount
  cases children with
  | null count => cases hnull
  | items address list =>
    obtain ⟨child, rfl⟩ := List.length_eq_one_iff.mp hone
    exact ⟨child, rfl, by simpa [Span.list] using hinput⟩

theorem validateButton_ok
    (h : validateButton view ctx = .ok ctx') : TakesCustomId view.customId ctx ctx' := by
  obtain ⟨-, -, h⟩ := bind_ok h
  obtain ⟨-, -, h⟩ := bind_ok h
  obtain ⟨-, -, h⟩ := bind_ok h
  split_ifs at h
  · obtain ⟨_, hlink, h⟩ := bind_ok h
    have hlink := require_ok hlink
    cases h
    simp only [Bool.and_eq_true, Option.isNone_iff_eq_none] at hlink
    exact Or.inl ⟨hlink.1.1.2, rfl⟩
  · obtain ⟨_, hpremium, h⟩ := bind_ok h
    have hpremium := require_ok hpremium
    cases h
    simp only [Bool.and_eq_true, Option.isNone_iff_eq_none] at hpremium
    exact Or.inl ⟨hpremium.1.1.1.2, rfl⟩
  · obtain ⟨-, -, h⟩ := bind_ok h
    obtain ⟨-, -, h⟩ := bind_ok h
    exact Or.inr h

theorem validateSelect_ok
    (h : validateSelect abi view ctx = .ok ctx') : TakesCustomId view.customId ctx ctx' := by
  obtain ⟨ctx₁, hcustom, h⟩ := bind_ok h
  obtain ⟨-, -, h⟩ := bind_ok h
  obtain ⟨-, -, h⟩ := bind_ok h
  obtain ⟨-, -, h⟩ := bind_ok h
  obtain ⟨-, -, h⟩ := bind_ok h
  obtain ⟨-, -, h⟩ := bind_ok h
  cases h
  exact Or.inr hcustom

theorem validateTextInput_ok
    (h : validateTextInput view ctx = .ok ctx') : TakesCustomId view.customId ctx ctx' := by
  obtain ⟨-, -, h⟩ := bind_ok h
  obtain ⟨-, -, h⟩ := bind_ok h
  obtain ⟨-, -, h⟩ := bind_ok h
  exact Or.inr h

theorem validateFileUpload_ok
    (h : validateFileUpload view ctx = .ok ctx') : TakesCustomId view.customId ctx ctx' := by
  obtain ⟨-, -, h⟩ := bind_ok h
  obtain ⟨-, -, h⟩ := bind_ok h
  obtain ⟨-, -, h⟩ := bind_ok h
  exact Or.inr h

theorem validateRadioGroup_ok
    (h : validateRadioGroup abi view ctx = .ok ctx') : TakesCustomId view.customId ctx ctx' := by
  obtain ⟨ctx₁, hcustom, h⟩ := bind_ok h
  obtain ⟨-, -, h⟩ := bind_ok h
  cases h
  exact Or.inr hcustom

theorem validateCheckboxGroup_ok (h : validateCheckboxGroup abi view ctx = .ok ctx') :
    TakesCustomId view.customId ctx ctx' := by
  obtain ⟨ctx₁, hcustom, h⟩ := bind_ok h
  obtain ⟨-, -, h⟩ := bind_ok h
  obtain ⟨-, -, h⟩ := bind_ok h
  cases h
  exact Or.inr hcustom

/-! ## The first pass -/

variable {head : Head}

theorem subtrees_leaf (h : head.type.isLayout = false) :
    (Builder.mk head children accessory).subtrees = [.mk head children accessory] := by
  have hsection : head.type ≠ .sectionType := by
    intro heq
    rw [heq] at h
    cases h
  rw [Builder.subtrees, if_neg (by simp [h]), if_neg hsection]
  rfl

theorem subtrees_layout (h : head.type.isLayout = true) (hsection : head.type ≠ .sectionType) :
    (Builder.mk head children accessory).subtrees =
      [.mk head children accessory] ++ children.subtrees := by
  rw [Builder.subtrees, if_pos h, if_neg hsection, List.append_nil]
  rfl

theorem subtrees_section (h : head.type = .sectionType) :
    (Builder.mk head children accessory).subtrees =
      [.mk head children accessory] ++ (children.subtrees ++ subtreesOfAccessory accessory) := by
  have hlayout : head.type.isLayout = true := by rw [h]; rfl
  rw [Builder.subtrees, if_pos hlayout, if_pos h]
  rfl

/-- The types of what a message shows without a custom id. -/
def ComponentType.isContent : ComponentType → Bool
  | .textDisplay | .thumbnail | .mediaGallery | .file | .separator => true
  | _ => false

theorem view_customId_none (h : head.type.isLayout = true ∨ head.type.isContent = true) :
    head.view.customId = none := by
  rw [Head.view]
  split <;> rename_i htype
  all_goals
    first
      | rfl
      | rw [htype] at h
        simp [ComponentType.isLayout, ComponentType.isContent] at h

theorem rules_leaf {b : Builder} (h : b.type.isLayout = false) : Rules b := by
  refine ⟨?_, ?_, ?_, ?_⟩ <;>
    · intro htype
      rw [htype] at h
      cases h

mutual

/-- **The first pass over a component**: it has found out what it says about the component and all
those below it. -/
theorem validateOne_ok {abi : Abi} : ∀ {b : Builder} {ctx ctx' : Validation},
    validateOne abi b ctx = .ok ctx' → Passed ctx ctx' b.subtrees
  | .mk head children accessory, ctx, ctx', h => by
      rw [validateOne] at h
      obtain ⟨_, hformed, h⟩ := bind_ok h
      obtain ⟨_, htotal, h⟩ := bind_ok h
      obtain ⟨ctx₁, hself, h⟩ := bind_ok h
      obtain ⟨_, hflags, h⟩ := bind_ok h
      have htotal : ctx.totalCount < maxComponents := of_decide_eq_true (require_ok htotal)
      have hown : head.type.isLayout = true → Rules (.mk head children accessory) →
          Passed ctx ctx₁ [.mk head children accessory] :=
        fun hlayout hrules =>
          passed_self htotal hself (Or.inl ⟨view_customId_none (Or.inl hlayout), rfl⟩) hrules
      have hleaf : head.type.isLayout = false → TakesCustomId head.view.customId ctx₁ ctx' →
          Passed ctx ctx' (Builder.mk head children accessory).subtrees := by
        intro hlayout hcustom
        rw [subtrees_leaf hlayout]
        exact passed_self htotal hself hcustom (rules_leaf hlayout)
      have hshown : head.type.isLayout = false → head.type.isContent = true → ctx₁ = ctx' →
          Passed ctx ctx' (Builder.mk head children accessory).subtrees :=
        fun hlayout hcontent heq =>
          hleaf hlayout (Or.inl ⟨view_customId_none (Or.inr hcontent), heq.symm⟩)
      cases htype : head.type with
      | actionRow =>
        simp only [htype] at h
        obtain ⟨_, hrow, h⟩ := bind_ok h
        have hrules : Rules (.mk head children accessory) :=
          ⟨fun _ => checkActionRow_ok hrow, by simp [htype], by simp [htype], by simp [htype]⟩
        rw [subtrees_layout (by rw [htype]; rfl) (by simp [htype])]
        exact (hown (by rw [htype]; rfl) hrules).trans (validateChildren_ok h)
      | sectionType =>
        simp only [htype] at h
        obtain ⟨_, hsection, h⟩ := bind_ok h
        obtain ⟨ctx₂, hchildren, haccessory⟩ := bind_ok h
        obtain ⟨htexts, hbutton⟩ := checkSection_ok hsection
        have hrules : Rules (.mk head children accessory) :=
          ⟨by simp [htype], fun _ => htexts, fun _ => hbutton, by simp [htype]⟩
        rw [subtrees_section htype]
        exact (hown (by rw [htype]; rfl) hrules).trans
          ((validateChildren_ok hchildren).trans (validateAccessory_ok haccessory))
      | container =>
        simp only [htype] at h
        have hrules : Rules (.mk head children accessory) := by
          refine ⟨?_, ?_, ?_, ?_⟩ <;> simp [htype]
        rw [subtrees_layout (by rw [htype]; rfl) (by simp [htype])]
        exact (hown (by rw [htype]; rfl) hrules).trans (validateChildren_ok h)
      | label =>
        simp only [htype] at h
        obtain ⟨_, hlabel, h⟩ := bind_ok h
        have hrules : Rules (.mk head children accessory) :=
          ⟨by simp [htype], by simp [htype], by simp [htype], fun _ => checkLabel_ok hlabel⟩
        rw [subtrees_layout (by rw [htype]; rfl) (by simp [htype])]
        exact (hown (by rw [htype]; rfl) hrules).trans (validateChildren_ok h)
      | button =>
        simp only [htype] at h
        exact hleaf (by rw [htype]; rfl) (validateButton_ok h)
      | stringSelect | userSelect | roleSelect | mentionableSelect | channelSelect =>
        simp only [htype] at h
        exact hleaf (by rw [htype]; rfl) (validateSelect_ok h)
      | textInput =>
        simp only [htype] at h
        exact hleaf (by rw [htype]; rfl) (validateTextInput_ok h)
      | fileUpload =>
        simp only [htype] at h
        exact hleaf (by rw [htype]; rfl) (validateFileUpload_ok h)
      | radioGroup =>
        simp only [htype] at h
        exact hleaf (by rw [htype]; rfl) (validateRadioGroup_ok h)
      | checkboxGroup =>
        simp only [htype] at h
        exact hleaf (by rw [htype]; rfl) (validateCheckboxGroup_ok h)
      | checkbox =>
        simp only [htype] at h
        exact hleaf (by rw [htype]; rfl) (Or.inr h)
      | textDisplay | thumbnail | file | mediaGallery =>
        simp only [htype] at h
        obtain ⟨_, -, h⟩ := bind_ok h
        cases h
        exact hshown (by rw [htype]; rfl) (by rw [htype]; rfl) rfl
      | separator =>
        simp only [htype] at h
        cases h
        exact hshown (by rw [htype]; rfl) (by rw [htype]; rfl) rfl
      | unknown number =>
        simp only [htype] at h
        cases h

theorem validateChildren_ok {abi : Abi} : ∀ {children : Span Builder} {ctx ctx' : Validation},
    validateChildren abi children ctx = .ok ctx' → Passed ctx ctx' children.subtrees
  | .null count, ctx, ctx', h => by
      rw [validateChildren] at h
      obtain ⟨stride, -, h⟩ := bind_ok h
      cases h
      rw [Span.subtrees]
      exact Passed.nil ctx
  | .items address list, ctx, ctx', h => by
      rw [validateChildren] at h
      obtain ⟨_, -, h⟩ := bind_ok h
      obtain ⟨stride, -, h⟩ := bind_ok h
      rw [Span.subtrees]
      exact validateList_ok h

theorem validateList_ok {abi : Abi} {stride : Nat} :
    ∀ {list : List Builder} {ctx ctx' : Validation},
      validateList abi stride list ctx = .ok ctx' → Passed ctx ctx' (subtreesOfList list)
  | [], ctx, ctx', h => by
      rw [validateList] at h
      cases h
      rw [subtreesOfList]
      exact Passed.nil ctx
  | child :: list, ctx, ctx', h => by
      rw [validateList] at h
      obtain ⟨_, -, h⟩ := bind_ok h
      obtain ⟨ctx₁, hchild, h⟩ := bind_ok h
      rw [subtreesOfList]
      exact (validateOne_ok hchild).trans (validateList_ok h)

theorem validateAccessory_ok {abi : Abi} :
    ∀ {accessory : Option Builder} {ctx ctx' : Validation},
      validateAccessory abi accessory ctx = .ok ctx' →
        Passed ctx ctx' (subtreesOfAccessory accessory)
  | none, ctx, ctx', h => by
      rw [validateAccessory] at h
      cases h
  | some accessory, ctx, ctx', h => by
      rw [validateAccessory] at h
      rw [subtreesOfAccessory]
      exact validateOne_ok h

end

end Dcc.Components
