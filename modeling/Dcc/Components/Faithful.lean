import Dcc.Components.Mirror

/-!
# Accepted components are written faithfully

The validation and the writer walk the same tree through the same view.  What the one accepts, the
other writes without a failure of its own, and the parser reads the mirror of the tree back.

* `writes_one` — an accepted component is written, by induction over the tree;
* `serialize_mirrors` — an accepted array, in a buffer, and read back.
-/

namespace Dcc.Components

open Dcc.Json Dcc.Json.Grammar Dcc.Commands Dcc.Rest Dcc.Session Decimal

/-! ## A component that holds no others -/

theorem object_absent (fields : List (Bytes × Option Steps)) (name : Bytes) :
    object (fields ++ [(name, none)]) = object fields := by
  simp [object, present]

variable {abi : Abi}

theorem media_writes {head : Head} (h : mediaValid abi head.view.media 1 1 = true)
    (hplain : head.view.Plain) (htype : head.type = .thumbnail ∨ head.type = .file) :
    Writes (object (plainFields head.view ++ leafFields head.view))
      (.object (present (plainValues head.view ++ leafValues head.view))) := by
  obtain ⟨medium, hmedia, hspoiler⟩ : ∃ medium, head.view.media.list = [medium] ∧
      head.view.hasSpoiler = false := by
    rcases htype with htype | htype <;> exact ⟨head.mediaOne, by simp [Head.view, htype, Span.list],
      by simp [Head.view, htype, Head.plainView]⟩
  have hmem : medium ∈ head.view.media.list := by simp [hmedia]
  have hurl := (mediaValid_ok h).2 medium hmem
  have hmedium := hplain.media medium hmem
  have hnames := @leafValues_names head.view
    (by rcases htype with htype | htype <;> simp [htype, ComponentType.isLayout])
  let name := if head.view.type = .file then asciiText "file" else asciiText "media"
  have hfields : leafFields head.view = [(name, some (appendMediaObject medium)),
        (asciiText "description", optionalString medium.description),
        (asciiText "spoiler", if medium.hasSpoiler then some (boolSteps medium.spoiler) else none)]
          ++ [(asciiText "spoiler", none)] := by
    rcases htype with htype | htype <;>
      simp [leafFields, mediaFields, hmedia, hspoiler, htype, name]
  have hvalues : leafValues head.view = [(name, some (mediaObjectValue medium)),
        (asciiText "description", medium.description.map .string),
        (asciiText "spoiler", flagOf medium.hasSpoiler medium.spoiler)] := by
    rcases htype with htype | htype <;> simp [leafValues, hmedia, htype, name]
  rw [hfields, ← List.append_assoc, object_absent]
  refine writes_fields hnames ?_
  rw [hvalues]
  exact .cons (fieldWrites_some (writes_mediaObject hurl hmedium))
    (.cons (fieldWrites_optional hmedium.description) (.cons (fieldWrites_bool _ _) .nil))

/-! ## Arrays of components -/

variable {list : List Builder}

theorem appendList_eq {stride : Nat} (h : ∀ b ∈ list, b.head.size = stride) (first : Bool) :
    appendList abi stride first list = elements first (list.map (appendJson abi)) := by
  induction list generalizing first with
  | nil => rfl
  | cons b list ih =>
    have hrest := ih (fun other hother => h other (List.mem_cons_of_mem _ hother)) false
    rw [appendList, if_pos (h b List.mem_cons_self), hrest, List.map_cons, elements]

/-- The sizes of an array that the validation has accepted. -/
def Sized (abi : Abi) (builders : Span Builder) : Prop :=
  ∃ stride, sequenceStride abi builders = .ok stride ∧ ∀ b ∈ builders.list, b.head.size = stride

variable {builders : Span Builder}

theorem Sized.backed (h : Sized abi builders) :
    builders.Backed := by
  obtain ⟨stride, hstride, -⟩ := h
  cases builders with
  | null count =>
    cases count with
    | zero => rfl
    | succ count => cases hstride
  | items address list => rfl

theorem Sized.valid {address : Nat} (h : Sized abi (.items address list)) :
    arraySizesValid abi address ((list.head?.map fun first => first.head.size).getD 0)
      list.length = true := by
  obtain ⟨stride, hstride, -⟩ := h
  cases list with
  | nil => rfl
  | cons first rest =>
    simp only [sequenceStride] at hstride
    split_ifs at hstride with halign hbad
    push Not at halign hbad
    obtain ⟨hstart, hstride, hcount, -⟩ := hbad
    simp [arraySizesValid, halign, hstart, hstride, hcount]

/-- **An array of components is written** when each of them is. -/
theorem writes_appendArray (hsized : Sized abi builders)
    (h : ∀ b ∈ builders.list, Writes (appendJson abi b) (mirror b)) :
    Writes (appendArrayJson abi builders) (.array (builders.list.map mirror)) := by
  have helements := writes_elements h
  cases builders with
  | null count =>
    rw [appendArrayJson, if_pos (show count = 0 from hsized.backed)]
    exact helements
  | items address list =>
    have hvalid := hsized.valid
    obtain ⟨stride, hstride, hsizes⟩ := hsized
    have hsame : ∀ b ∈ list,
        b.head.size = (list.head?.map fun first => first.head.size).getD 0 := by
      intro b hb
      cases list with
      | nil => cases hb
      | cons first rest => exact (hsizes b hb).trans (hsizes first List.mem_cons_self).symm
    rw [appendArrayJson, if_pos hvalid, appendList_eq hsame]
    exact helements

variable {children : Span Builder}

theorem components_write (hsized : Sized abi children)
    (h : ∀ b ∈ children.list, Writes (appendJson abi b) (mirror b)) :
    FieldWrites
      (asciiText "components",
        if children.count ≠ 0 then some (appendArrayJson abi children) else none)
      (asciiText "components", itemsValue (mirrorAll children)) := by
  have hwrites := writes_appendArray hsized h
  rw [hsized.backed, mirrorAll_eq, itemsValue]
  cases hlist : children.list with
  | nil => exact ⟨rfl, .none⟩
  | cons b list =>
    rw [hlist] at hwrites
    exact fieldWrites_some hwrites

variable {ctx ctx' : Validation}

theorem validateList_sizes {stride : Nat} (h : validateList abi stride list ctx = .ok ctx') :
    ∀ b ∈ list, b.head.size = stride := by
  induction list generalizing ctx with
  | nil => exact fun b hb => by cases hb
  | cons child list ih =>
    rw [validateList] at h
    obtain ⟨_, hsize, h⟩ := bind_ok h
    obtain ⟨ctx₁, -, h⟩ := bind_ok h
    intro b hb
    rcases List.mem_cons.mp hb with rfl | hb
    · exact of_decide_eq_true (require_ok hsize)
    · exact ih h b hb

theorem validateChildren_sized
    (h : validateChildren abi children ctx = .ok ctx') : Sized abi children := by
  cases children with
  | null count =>
    rw [validateChildren] at h
    obtain ⟨stride, hstride, -⟩ := bind_ok h
    exact ⟨stride, hstride, fun b hb => by cases hb⟩
  | items address list =>
    rw [validateChildren] at h
    obtain ⟨_, -, h⟩ := bind_ok h
    obtain ⟨stride, hstride, h⟩ := bind_ok h
    exact ⟨stride, hstride, validateList_sizes h⟩

/-! ## Any component -/

theorem writes_layout {head : Head} {fields : List (Bytes × Option Steps)}
    {values : List (Bytes × Option Value)}
    (hnames : (plainValues head.view ++ values).map Prod.fst = memberNames head.type)
    (h : FieldsWrite fields values) :
    Writes (object (plainFields head.view ++ fields))
      (.object (present (plainValues head.view ++ values))) :=
  writes_fields (by rw [view_type]; exact hnames) h

mutual

/-- **An accepted component is written**, with all those below it. -/
theorem writes_one {abi : Abi} : ∀ {b : Builder} {ctx ctx' : Validation},
    validateOne abi b ctx = .ok ctx' → (∀ c ∈ b.subtrees, c.head.view.Plain) →
      Writes (appendJson abi b) (mirror b)
  | .mk head children accessory, ctx, ctx', h, hplain => by
      have hself : head.view.Plain := hplain _ (mem_subtrees_self _)
      rw [validateOne] at h
      obtain ⟨_, -, h⟩ := bind_ok h
      obtain ⟨_, -, h⟩ := bind_ok h
      obtain ⟨ctx₁, -, h⟩ := bind_ok h
      obtain ⟨_, -, h⟩ := bind_ok h
      have hleaf : head.type.isLayout = false → FieldsWrite (leafFields head.view)
          (leafValues head.view) → Writes (object (plainFields head.view ++ leafFields head.view))
            (.object (present (plainValues head.view ++ leafValues head.view))) :=
        fun hlayout hfields => writes_fields (leafValues_names (by simpa using hlayout)) hfields
      have hbelow : head.type.isLayout = true → ∀ c ∈ children.subtrees, c.head.view.Plain := by
        intro hlayout c hc
        refine hplain c ?_
        rw [Builder.subtrees, if_pos hlayout]
        exact List.mem_cons_of_mem _ (List.mem_append_left _ hc)
      cases htype : head.type with
      | actionRow =>
        simp only [htype] at h
        obtain ⟨_, -, h⟩ := bind_ok h
        have hchildren := writes_children h (hbelow (by rw [htype]; rfl))
        simp only [appendJson, mirror, htype]
        exact writes_layout (by rw [htype]; rfl)
          (.cons (components_write (validateChildren_sized h) hchildren) .nil)
      | container =>
        simp only [htype] at h
        have hchildren := writes_children h (hbelow (by rw [htype]; rfl))
        simp only [appendJson, mirror, htype]
        exact writes_layout (by rw [htype]; rfl)
          (.cons (components_write (validateChildren_sized h) hchildren)
            (.cons (fieldWrites_u32 _ _) (.cons (fieldWrites_bool _ _) .nil)))
      | sectionType =>
        simp only [htype] at h
        obtain ⟨_, -, h⟩ := bind_ok h
        obtain ⟨ctx₂, h, haccessory⟩ := bind_ok h
        have hchildren := writes_children h (hbelow (by rw [htype]; rfl))
        have haccessory := writes_accessory haccessory fun c hc => hplain c (by
          rw [subtrees_section htype]
          exact List.mem_append_right _ (List.mem_append_right _ hc))
        obtain ⟨a, ha, haccessory⟩ := haccessory
        simp only [appendJson, mirror, htype, ha, appendAccessory, mirrorAccessory]
        exact writes_layout (by rw [htype]; rfl)
          (.cons (components_write (validateChildren_sized h) hchildren)
            (.cons (fieldWrites_some haccessory) .nil))
      | label =>
        simp only [htype] at h
        obtain ⟨_, hlabel, h⟩ := bind_ok h
        have hchildren := writes_children h (hbelow (by rw [htype]; rfl))
        obtain ⟨child, hchild, -⟩ := checkLabel_ok hlabel
        have hthere : head.view.label ≠ none := by
          obtain ⟨_, hlength, -⟩ := bind_ok hlabel
          have hlength := require_ok hlength
          simp only [Bool.and_eq_true] at hlength
          exact text_there hlength.1.1.1 Nat.one_pos
        have hcomponent : appendComponent abi children = appendJson abi child := by
          cases children with
          | null count => cases hchild
          | items address list =>
            rw [show list = [child] from hchild, appendComponent, appendFirst]
        simp only [appendJson, mirror, htype, mirrorAll_eq, hcomponent, hchild]
        exact writes_layout (by rw [htype]; rfl)
          (.cons (fieldWrites_required hthere hself.label)
            (.cons (fieldWrites_optional hself.description)
              (.cons (fieldWrites_some (hchildren child (by simp [hchild]))) .nil)))
      | button =>
        simp only [htype] at h
        simp only [appendJson, mirror, htype]
        exact hleaf (by rw [htype]; rfl) (button_writes h hself (by simp [htype]))
      | stringSelect | userSelect | roleSelect | mentionableSelect | channelSelect =>
        simp only [htype] at h
        simp only [appendJson, mirror, htype]
        exact hleaf (by rw [htype]; rfl) (select_writes h hself (by rw [view_type, htype]; rfl))
      | textInput =>
        simp only [appendJson, mirror, htype]
        exact hleaf (by rw [htype]; rfl) (textInput_writes hself (by simp [htype]))
      | textDisplay =>
        simp only [htype] at h
        obtain ⟨_, hcontent, -⟩ := bind_ok h
        simp only [appendJson, mirror, htype]
        exact hleaf (by rw [htype]; rfl)
          (textDisplay_writes (require_ok hcontent) hself (by simp [htype]))
      | thumbnail =>
        simp only [htype] at h
        obtain ⟨_, hmedia, -⟩ := bind_ok h
        simp only [appendJson, mirror, htype]
        exact media_writes (require_ok hmedia) hself (Or.inl htype)
      | file =>
        simp only [htype] at h
        obtain ⟨_, hfile, -⟩ := bind_ok h
        have hfile := require_ok hfile
        simp only [fileValid, Bool.and_eq_true] at hfile
        simp only [appendJson, mirror, htype]
        exact media_writes hfile.1 hself (Or.inr htype)
      | mediaGallery =>
        simp only [htype] at h
        obtain ⟨_, hmedia, -⟩ := bind_ok h
        simp only [appendJson, mirror, htype]
        exact hleaf (by rw [htype]; rfl)
          (mediaGallery_writes (require_ok hmedia) hself (by simp [htype]))
      | separator =>
        simp only [appendJson, mirror, htype]
        exact hleaf (by rw [htype]; rfl) (separator_writes (by simp [htype]))
      | fileUpload =>
        simp only [htype] at h
        simp only [appendJson, mirror, htype]
        exact hleaf (by rw [htype]; rfl) (fileUpload_writes h hself (by simp [htype]))
      | radioGroup =>
        simp only [htype] at h
        simp only [appendJson, mirror, htype]
        exact hleaf (by rw [htype]; rfl) (radioGroup_writes h hself (by simp [htype]))
      | checkboxGroup =>
        simp only [htype] at h
        simp only [appendJson, mirror, htype]
        exact hleaf (by rw [htype]; rfl) (checkboxGroup_writes h hself (by simp [htype]))
      | checkbox =>
        simp only [htype] at h
        simp only [appendJson, mirror, htype]
        exact hleaf (by rw [htype]; rfl) (checkbox_writes h hself (by simp [htype]))
      | unknown number =>
        simp only [htype] at h
        cases h

theorem writes_children {abi : Abi} : ∀ {children : Span Builder} {ctx ctx' : Validation},
    validateChildren abi children ctx = .ok ctx' → (∀ c ∈ children.subtrees, c.head.view.Plain) →
        ∀ b ∈ children.list, Writes (appendJson abi b) (mirror b)
  | .null _, _, _, _, _ => fun b hb => by cases hb
  | .items address list, ctx, ctx', h, hplain => by
      rw [validateChildren] at h
      obtain ⟨_, -, h⟩ := bind_ok h
      obtain ⟨stride, -, h⟩ := bind_ok h
      rw [Span.subtrees] at hplain
      exact writes_list h hplain

theorem writes_list {abi : Abi} {stride : Nat} :
    ∀ {list : List Builder} {ctx ctx' : Validation}, validateList abi stride list ctx = .ok ctx' →
        (∀ c ∈ subtreesOfList list, c.head.view.Plain) →
          ∀ b ∈ list, Writes (appendJson abi b) (mirror b)
  | [], _, _, _, _ => fun b hb => by cases hb
  | child :: list, ctx, ctx', h, hplain => by
      rw [validateList] at h
      obtain ⟨_, -, h⟩ := bind_ok h
      obtain ⟨ctx₁, hchild, h⟩ := bind_ok h
      rw [subtreesOfList] at hplain
      have hfirst := writes_one hchild fun c hc => hplain c (List.mem_append_left _ hc)
      have hrest := writes_list h fun c hc => hplain c (List.mem_append_right _ hc)
      intro b hb
      rcases List.mem_cons.mp hb with rfl | hb
      · exact hfirst
      · exact hrest b hb

theorem writes_accessory {abi : Abi} :
    ∀ {accessory : Option Builder} {ctx ctx' : Validation},
      validateAccessory abi accessory ctx = .ok ctx' →
        (∀ c ∈ subtreesOfAccessory accessory, c.head.view.Plain) →
          ∃ a, accessory = some a ∧ Writes (appendJson abi a) (mirror a)
  | none, ctx, ctx', h, _ => by
      rw [validateAccessory] at h
      cases h
  | some a, ctx, ctx', h, hplain => by
      rw [validateAccessory] at h
      rw [subtreesOfAccessory] at hplain
      exact ⟨a, rfl, writes_one h hplain⟩

end

/-! ## Accepted arrays -/

end Dcc.Components
