import Dcc.Components.Sound

/-!
# What an accepted array of components is like

The passes after the first look at what may stand under what.  In a message, rows and sections hold
nothing that holds more, so what stands in a container is at most a row or a section.

* `layout_ok` — the pass over a message;
* `validate_sound` — an accepted array is well-formed at every depth.
-/

namespace Dcc.Components

/-! ## The pass over a message -/

/-- The types that only a modal may have. -/
def ComponentType.isModalOnly : ComponentType → Bool
  | .textInput | .label | .fileUpload | .radioGroup | .checkboxGroup | .checkbox => true
  | _ => false

/-- A component that may stand below a root of a message. -/
def Settled (b : Builder) : Prop := b.type.isModalOnly = false ∧ b.type ≠ .container

variable {list : List Builder}

theorem subtreesOfList_settled
    (h : ∀ b ∈ list, ∀ c ∈ b.subtrees, Settled c) : ∀ c ∈ subtreesOfList list, Settled c := by
  intro c hc
  rw [subtreesOfList_eq] at hc
  obtain ⟨b, hb, hc⟩ := List.mem_flatMap.mp hc
  exact h b hb c hc

theorem span_subtrees (builders : Span Builder) :
    builders.subtrees = subtreesOfList builders.list := by
  cases builders with
  | null count => rfl
  | items address list => rfl

variable {b : Builder}

theorem settled_leaf (hlayout : b.type.isLayout = false) (h : Settled b) :
    ∀ c ∈ b.subtrees, Settled c := by
  obtain ⟨head, children, accessory⟩ := b
  intro c hc
  rw [subtrees_leaf (by simpa using hlayout)] at hc
  rw [List.mem_singleton.mp hc]
  exact h

theorem settled_row (hrules : Rules b) (h : b.type = .actionRow) :
    ∀ c ∈ b.subtrees, Settled c := by
  obtain ⟨head, children, accessory⟩ := b
  have htype : head.type = .actionRow := h
  have hchild : ∀ child ∈ children.list, child.type = .button ∨ child.type.isSelect = true := by
    intro child hmem
    rcases hrules.row h with ⟨-, -, hbuttons⟩ | ⟨only, honly, hselect⟩
    · exact Or.inl (hbuttons child hmem)
    · rw [show children.list = [only] from honly] at hmem
      rw [List.mem_singleton.mp hmem]
      exact Or.inr hselect
  intro c hc
  rw [subtrees_layout (by rw [htype]; rfl) (by simp [htype]), span_subtrees] at hc
  rcases List.mem_append.mp hc with hc | hc
  · rw [List.mem_singleton.mp hc]
    simp [Settled, h, ComponentType.isModalOnly]
  · refine subtreesOfList_settled (fun child hmem => ?_) c hc
    have hleaf : child.type.isLayout = false ∧ Settled child := by
      rw [Settled]
      rcases hchild child hmem with hbutton | hselect
      · simp [hbutton, ComponentType.isLayout, ComponentType.isModalOnly]
      · cases htype : child.type <;>
          simp_all [ComponentType.isSelect, ComponentType.isLayout, ComponentType.isModalOnly]
    exact settled_leaf hleaf.1 hleaf.2

theorem settled_section (hrules : Rules b) (h : b.type = .sectionType) :
    ∀ c ∈ b.subtrees, Settled c := by
  obtain ⟨head, children, accessory⟩ := b
  have htype : head.type = .sectionType := h
  obtain ⟨a, haccessory, hbutton⟩ := hrules.accessory h
  rw [show accessory = some a from haccessory]
  intro c hc
  rw [subtrees_section htype, span_subtrees] at hc
  rcases List.mem_append.mp hc with hc | hc
  · rw [List.mem_singleton.mp hc]
    simp [Settled, htype, ComponentType.isModalOnly]
  · rcases List.mem_append.mp hc with hc | hc
    · refine subtreesOfList_settled (fun child hmem => ?_) c hc
      have htext := hrules.texts h child hmem
      exact settled_leaf (by rw [htext]; rfl) (by simp [Settled, htext, ComponentType.isModalOnly])
    · rw [subtreesOfAccessory] at hc
      have hleaf : a.type.isLayout = false ∧ Settled a := by
        rw [Settled]
        rcases hbutton with hbutton | hthumbnail
        · simp [hbutton, ComponentType.isLayout, ComponentType.isModalOnly]
        · simp [hthumbnail, ComponentType.isLayout, ComponentType.isModalOnly]
      exact settled_leaf hleaf.1 hleaf.2 c hc

theorem settled_containerChild (hrules : Rules b)
    (h : containerChildAllowed b.type = true) : ∀ c ∈ b.subtrees, Settled c := by
  cases htype : b.type with
  | actionRow => exact settled_row hrules htype
  | sectionType => exact settled_section hrules htype
  | textDisplay | mediaGallery | separator | file =>
    exact settled_leaf (by rw [htype]; rfl) (by simp [Settled, htype, ComponentType.isModalOnly])
  | _ =>
    rw [htype] at h
    cases h

variable {abi : Abi} {u : Unit}

variable {parent : ComponentType}

theorem layoutOfList_ok (h : layoutOfList abi list parent = .ok u) :
    ∀ child ∈ list, ∃ v, validateMessageLayout abi child parent false = .ok v := by
  induction list with
  | nil => exact fun child hchild => by cases hchild
  | cons first list ih =>
    rw [layoutOfList] at h
    obtain ⟨v, hfirst, h⟩ := bind_ok h
    intro child hchild
    rcases List.mem_cons.mp hchild with rfl | hchild
    · exact ⟨v, hfirst⟩
    · exact ih h child hchild

theorem layoutOfChildren_ok {children : Span Builder}
    (h : layoutOfChildren abi children parent = .ok u) :
    ∀ child ∈ children.list, ∃ v, validateMessageLayout abi child parent false = .ok v := by
  cases children with
  | null count => exact fun child hchild => by cases hchild
  | items address list =>
    rw [layoutOfChildren] at h
    obtain ⟨stride, -, h⟩ := bind_ok h
    exact layoutOfList_ok h

theorem layout_containerChild (h : validateMessageLayout abi b .container false = .ok u) :
    containerChildAllowed b.type = true := by
  obtain ⟨head, children, accessory⟩ := b
  rw [validateMessageLayout] at h
  obtain ⟨_, -, h⟩ := bind_ok h
  obtain ⟨_, hallowed, h⟩ := bind_ok h
  simpa using require_ok hallowed

/-- **The pass over a message**: what stands below a root is settled, and the root is not for a
modal only. -/
theorem layout_ok
    (h : validateMessageLayout abi b parent true = .ok u) (hrules : ∀ c ∈ b.subtrees, Rules c) :
    b.type.isModalOnly = false ∧ ∀ c ∈ b.descendants, Settled c := by
  have hroot : messageRootAllowed b.type = true := by
    obtain ⟨head, children, accessory⟩ := b
    rw [validateMessageLayout] at h
    obtain ⟨_, hallowed, h⟩ := bind_ok h
    simpa using require_ok hallowed
  obtain ⟨head, children, accessory⟩ := b
  rw [mk_type] at hroot
  have hself := hrules _ (mem_subtrees_self _)
  refine ⟨?_, ?_⟩
  · cases htype : head.type <;> simp_all [messageRootAllowed, ComponentType.isModalOnly]
  · by_cases hcontainer : head.type = .container
    · have hlayout : head.type.isLayout = true := by rw [hcontainer]; rfl
      have hsection : head.type ≠ .sectionType := by simp [hcontainer]
      have hbelow : (Builder.mk head children accessory).subtrees =
          [.mk head children accessory] ++ children.subtrees := subtrees_layout hlayout hsection
      rw [validateMessageLayout] at h
      obtain ⟨_, -, h⟩ := bind_ok h
      obtain ⟨_, -, h⟩ := bind_ok h
      obtain ⟨_, -, h⟩ := bind_ok h
      dsimp only at h
      rw [if_pos hlayout] at h
      obtain ⟨_, hchildren, -⟩ := bind_ok h
      have hallowed : ∀ child ∈ children.list, containerChildAllowed child.type = true := by
        intro child hchild
        obtain ⟨v, hlayout⟩ := layoutOfChildren_ok hchildren child hchild
        rw [hcontainer] at hlayout
        exact layout_containerChild hlayout
      rw [Builder.descendants, hbelow, span_subtrees]
      refine subtreesOfList_settled (fun child hchild => ?_)
      refine settled_containerChild (hrules child ?_) (hallowed child hchild)
      rw [hbelow, span_subtrees, subtreesOfList_eq]
      exact List.mem_append_right _ (List.mem_flatMap.mpr ⟨child, hchild, mem_subtrees_self child⟩)
    · have hallowed : containerChildAllowed head.type = true := by
        cases htype : head.type <;> simp_all [messageRootAllowed, containerChildAllowed]
      intro c hc
      exact settled_containerChild hself hallowed c (List.mem_of_mem_tail hc)

/-! ## The passes together -/

/-- What an accepted array is like. -/
structure Sound (builders : Span Builder) (context : Context) : Prop where
  total : builders.subtrees.length ≤ maxComponents
  customIds : (builders.subtrees.filterMap Builder.customId).Nodup
  lengths : ∀ text ∈ builders.subtrees.filterMap Builder.customId,
    1 ≤ text.length ∧ text.length ≤ 100
  ids : (builders.subtrees.filterMap Builder.nonzeroId).Nodup
  rows : ∀ b ∈ builders.subtrees, b.type = .actionRow → RowRule b.children.list
  message : context = .messageLegacy ∨ context = .messageV2 →
    ∀ b ∈ builders.subtrees, b.type.isModalOnly = false ∧
      (b.type = .container → ∀ c ∈ b.descendants, c.type ≠ .container)
  modal : context = .modal → (∀ b ∈ builders.list, b.type = .label ∨ b.type = .textDisplay) ∧
      ∀ b ∈ builders.subtrees, b.type = .label →
        ∃ child, b.children.list = [child] ∧ child.type.isInput = true

variable {builders : Span Builder}

theorem validateArray_ok (h : validateArray abi builders = .ok u) :
    ∃ ctx, Passed ⟨[], [], 0⟩ ctx builders.subtrees := by
  rw [validateArray] at h
  obtain ⟨_, -, h⟩ := bind_ok h
  obtain ⟨stride, -, h⟩ := bind_ok h
  obtain ⟨ctx, hlist, -⟩ := bind_ok h
  rw [span_subtrees]
  exact ⟨ctx, validateList_ok hlist⟩

/-- A root of a message, with what stands below it. -/
def RootSettled (b : Builder) : Prop :=
  b.type.isModalOnly = false ∧ ∀ c ∈ b.descendants, Settled c

theorem rootSettled_forest (h : ∀ b ∈ list, RootSettled b) :
    ∀ b ∈ subtreesOfList list, b.type.isModalOnly = false ∧
      (b.type = .container → ∀ c ∈ b.descendants, c.type ≠ .container) := by
  intro b hb
  rw [subtreesOfList_eq] at hb
  obtain ⟨root, hroot, hb⟩ := List.mem_flatMap.mp hb
  obtain ⟨hmodal, hbelow⟩ := h root hroot
  have hcases : b = root ∨ b ∈ root.descendants := by
    obtain ⟨head, children, accessory⟩ := root
    rw [Builder.subtrees] at hb
    rcases List.mem_cons.mp hb with rfl | hb
    · exact Or.inl rfl
    · right
      rw [Builder.descendants, Builder.subtrees]
      exact hb
  rcases hcases with rfl | hdescendant
  · exact ⟨hmodal, fun _ c hc => (hbelow c hc).2⟩
  · obtain ⟨hsettled, hne⟩ := hbelow b hdescendant
    exact ⟨hsettled, fun hcontainer => absurd hcontainer hne⟩

theorem messageRoots_ok
    (h : validateMessageRoots abi list = .ok u) (hrules : ∀ b ∈ subtreesOfList list, Rules b) :
    ∀ b ∈ list, RootSettled b := by
  induction list with
  | nil => exact fun b hb => by cases hb
  | cons item list ih =>
    rw [validateMessageRoots] at h
    obtain ⟨_, hlayout, h⟩ := bind_ok h
    obtain ⟨_, -, h⟩ := bind_ok h
    rw [subtreesOfList] at hrules
    intro b hb
    rcases List.mem_cons.mp hb with rfl | hb
    · exact layout_ok hlayout fun c hc => hrules c (List.mem_append_left _ hc)
    · exact ih h (fun c hc => hrules c (List.mem_append_right _ hc)) b hb

theorem legacyRoots_ok
    (h : validateLegacyRoots abi list = .ok u) : ∀ b ∈ list, b.type = .actionRow := by
  induction list with
  | nil => exact fun b hb => by cases hb
  | cons item list ih =>
    rw [validateLegacyRoots] at h
    obtain ⟨_, htype, h⟩ := bind_ok h
    obtain ⟨_, -, h⟩ := bind_ok h
    intro b hb
    rcases List.mem_cons.mp hb with rfl | hb
    · simpa using require_ok htype
    · exact ih h b hb

theorem modalRoots_ok (h : validateModalRoots abi list = .ok u) :
    ∀ b ∈ list, b.type = .label ∨ b.type = .textDisplay := by
  induction list with
  | nil => exact fun b hb => by cases hb
  | cons item list ih =>
    rw [validateModalRoots] at h
    obtain ⟨_, htype, h⟩ := bind_ok h
    obtain ⟨_, -, h⟩ := bind_ok h
    intro b hb
    rcases List.mem_cons.mp hb with rfl | hb
    · simpa using require_ok htype
    · exact ih h b hb

theorem context_ok {context : Context} (h : validateArrayContext abi builders context = .ok u)
    (hrules : ∀ b ∈ builders.subtrees, Rules b) :
    (context = .messageLegacy ∨ context = .messageV2 → ∀ b ∈ builders.list, RootSettled b) ∧
      (context = .modal → ∀ b ∈ builders.list, b.type = .label ∨ b.type = .textDisplay) := by
  rw [span_subtrees] at hrules
  have hroots : ∀ b ∈ builders.list, Rules b := by
    intro b hb
    refine hrules b ?_
    rw [subtreesOfList_eq]
    exact List.mem_flatMap.mpr ⟨b, hb, mem_subtrees_self b⟩
  unfold validateArrayContext at h
  obtain ⟨_, -, h⟩ := bind_ok h
  cases context with
  | any => simp
  | unknown number => simp
  | modal =>
    obtain ⟨stride, -, h⟩ := bind_ok h
    obtain ⟨_, -, h⟩ := bind_ok h
    exact ⟨by simp, fun _ => modalRoots_ok h⟩
  | messageLegacy =>
    obtain ⟨stride, -, h⟩ := bind_ok h
    obtain ⟨_, -, h⟩ := bind_ok h
    refine ⟨fun _ b hb => ?_, by simp⟩
    have hrow := legacyRoots_ok h b hb
    exact ⟨by rw [hrow]; rfl, fun c hc =>
      settled_row (hroots b hb) hrow c (List.mem_of_mem_tail hc)⟩
  | messageV2 =>
    obtain ⟨stride, -, h⟩ := bind_ok h
    exact ⟨fun _ => messageRoots_ok h hrules, by simp⟩

/-- **An accepted array of components is well-formed at every depth.** -/
theorem validate_sound (abi : Abi) (builders : Span Builder) (context : Context)
    (h : validateArrayContext abi builders context = .ok ()) : Sound builders context := by
  obtain ⟨ctx, hpassed⟩ : ∃ ctx, Passed ⟨[], [], 0⟩ ctx builders.subtrees := by
    unfold validateArrayContext at h
    obtain ⟨_, harray, -⟩ := bind_ok h
    exact validateArray_ok harray
  have hfits : ctx.Fits := hpassed.fits ⟨by simp, by simp, by simp, by simp⟩
  have hcustomIds : ctx.customIds = builders.subtrees.filterMap Builder.customId := by
    simpa using hpassed.customIds
  have hids : ctx.ids = builders.subtrees.filterMap Builder.nonzeroId := by simpa using hpassed.ids
  have htotal : ctx.totalCount = builders.subtrees.length := by simpa using hpassed.total
  obtain ⟨hmessage, hmodal⟩ := context_ok h hpassed.rules
  exact {
    total := htotal ▸ hfits.total
    customIds := hcustomIds ▸ hfits.customIds
    lengths := hcustomIds ▸ hfits.lengths
    ids := hids ▸ hfits.ids
    rows := fun b hb => (hpassed.rules b hb).row
    message := by
      intro hcontext
      rw [span_subtrees]
      exact rootSettled_forest (hmessage hcontext)
    modal := fun hcontext =>
      ⟨hmodal hcontext, fun b hb => (hpassed.rules b hb).input⟩ }

/-- A button with a label and a custom id. -/
def plainButton (label customId : Bytes) : Builder :=
  .mk ⟨96, 1, masks [.style, .label, .customId], .button, 0, { Members.zero with
      button := { Members.zero.button with
        style := 1, label := some label, customId := some customId } }⟩ (.null 0) none

/-- A container with a row of two buttons. -/
def rowInContainer : Builder :=
  .mk ⟨96, 1, masks [.id, .components], .container, 7, Members.zero⟩
    (.items 0x1000 [.mk ⟨96, 1, masks [.id, .components], .actionRow, 8, Members.zero⟩
      (.items 0x2000 [plainButton (asciiText "Yes") (asciiText "accept"),
        plainButton (asciiText "No") (asciiText "refuse")]) none]) none

theorem validate_sound_rowInContainer :
    validateArrayContext .lp64 (.items 0x800 [rowInContainer]) .messageV2 = .ok () ∧
      Sound (.items 0x800 [rowInContainer]) .messageV2 := by
  have haccepted : validateArrayContext .lp64 (.items 0x800 [rowInContainer]) .messageV2 = .ok () :=
    by decide +kernel
  exact ⟨haccepted, validate_sound .lp64 _ _ haccepted⟩

end Dcc.Components
