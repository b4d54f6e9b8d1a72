import Dcc.Json.Compact

/-!
# Texts assembled from pieces

A serializer of the library writes some parts of a document itself and copies others as
its caller spelled them.  A `Piece` is such a document: trees that are written, raw texts
that are copied, and arrays and objects of pieces.  Its text is always a spelling of its
tree; it is the compact spelling when every raw text in it is.

* `Piece.WellFormed.derives`: the text of a piece spells its tree;
* `Piece.WellFormed.compact_iff`: the text is what `appendJsonValue` writes of the tree exactly
  when the raw texts are compact.
-/

namespace Dcc.Json

open Grammar

/-- A document as it is assembled. -/
inductive Piece
  | value (v : Value)
  | raw (text : Bytes)
  | array (items : List Piece)
  | object (entries : List (Bytes × Piece))

namespace Piece

mutual

/-- The text of a piece. -/
def text : Piece → Bytes
  | .value v => appendJsonValue v
  | .raw text => text
  | .array items => chLBracket :: (joined (itemTexts items) ++ [chRBracket])
  | .object entries => chLBrace :: (joined (entryTexts entries) ++ [chRBrace])

def itemTexts : List Piece → List Bytes
  | [] => []
  | item :: items => item.text :: itemTexts items

def entryTexts : List (Bytes × Piece) → List Bytes
  | [] => []
  | (key, piece) :: entries => memberText key piece.text :: entryTexts entries

end

/-- The value that a raw text spells. -/
def rawTree (text : Bytes) : Value :=
  match parseValue text with
  | some (v, _) => v
  | none => .null

mutual

/-- The tree of a piece. -/
def tree : Piece → Value
  | .value v => v
  | .raw text => rawTree text
  | .array items => .array (itemTrees items)
  | .object entries => .object (entryTrees entries)

def itemTrees : List Piece → List Value
  | [] => []
  | item :: items => item.tree :: itemTrees items

def entryTrees : List (Bytes × Piece) → List (Bytes × Value)
  | [] => []
  | (key, piece) :: entries => (key, piece.tree) :: entryTrees entries

end

mutual

/-- The raw texts of a piece. -/
def raws : Piece → List Bytes
  | .value _ => []
  | .raw text => [text]
  | .array items => itemRaws items
  | .object entries => entryRaws entries

def itemRaws : List Piece → List Bytes
  | [] => []
  | item :: items => item.raws ++ itemRaws items

def entryRaws : List (Bytes × Piece) → List Bytes
  | [] => []
  | (_, piece) :: entries => piece.raws ++ entryRaws entries

end

theorem itemTexts_eq_map (items : List Piece) : itemTexts items = items.map text := by
  induction items with
  | nil => rfl
  | cons item items ih => rw [itemTexts, ih, List.map_cons]

theorem entryTexts_eq_map (entries : List (Bytes × Piece)) :
    entryTexts entries = entries.map fun entry => memberText entry.1 entry.2.text := by
  induction entries with
  | nil => rfl
  | cons entry entries ih => rw [entryTexts, ih, List.map_cons]

theorem itemTrees_eq_map (items : List Piece) : itemTrees items = items.map tree := by
  induction items with
  | nil => rfl
  | cons item items ih => rw [itemTrees, ih, List.map_cons]

theorem entryTrees_eq_map (entries : List (Bytes × Piece)) :
    entryTrees entries = entries.map fun entry => (entry.1, entry.2.tree) := by
  induction entries with
  | nil => rfl
  | cons entry entries ih => rw [entryTrees, ih, List.map_cons]

theorem mem_itemRaws {items : List Piece} {text : Bytes} :
    text ∈ itemRaws items ↔ ∃ item ∈ items, text ∈ item.raws := by
  induction items with
  | nil => simp [itemRaws]
  | cons item items ih => simp [itemRaws, ih]

theorem mem_entryRaws {entries : List (Bytes × Piece)} {text : Bytes} :
    text ∈ entryRaws entries ↔ ∃ entry ∈ entries, text ∈ entry.2.raws := by
  induction entries with
  | nil => simp [entryRaws]
  | cons entry entries ih => simp [entryRaws, ih]

/-- A key that is written as it is. -/
def PlainKey (key : Bytes) : Prop := PlainText key ∧ key.flatMap escapeByte = key

/-- Every part of the piece is JSON. -/
inductive WellFormed : Piece → Prop
  | value {v : Value} (h : Readable v) : WellFormed (.value v)
  | raw {text : Bytes} (h : ∃ v, Text v text) : WellFormed (.raw text)
  | array {items : List Piece} (h : ∀ item ∈ items, WellFormed item) : WellFormed (.array items)
  | object {entries : List (Bytes × Piece)} (hkey : ∀ entry ∈ entries, PlainKey entry.1)
      (h : ∀ entry ∈ entries, WellFormed entry.2) : WellFormed (.object entries)

theorem text_rawTree {text : Bytes} {v : Value} (h : Text v text) : rawTree text = v := by
  obtain ⟨rest, hparse, _⟩ := parseValue_of_text h
  rw [rawTree, hparse]

theorem derives_plainKey {key : Bytes} (hkey : PlainKey key) {v : Value} {t : Bytes}
    (h : Derives (.item v) t) : Derives (.member key v) (memberText key t) := by
  have hmember := derives_memberText hkey.1 h
  rwa [hkey.2] at hmember

/-- **The text of a piece spells its tree.** -/
theorem WellFormed.derives {p : Piece} (h : p.WellFormed) : Derives (.item p.tree) p.text := by
  induction h with
  | value h => exact item_of_derives (derives_appendJsonValue h)
  | raw h =>
    obtain ⟨v, hv⟩ := h
    rw [tree, text_rawTree hv]
    exact hv
  | array _ ih =>
    rw [tree, text, itemTrees_eq_map, itemTexts_eq_map]
    exact item_of_derives (derives_array tree text ih)
  | object hkey _ ih =>
    rw [tree, text, entryTrees_eq_map, entryTexts_eq_map]
    exact item_of_derives (derives_object (fun entry => (entry.1, entry.2.tree))
      (fun entry => memberText entry.1 entry.2.text)
      fun entry hentry => derives_plainKey (hkey entry hentry) (ih entry hentry))

end Piece

/-! ## Compact texts -/

/-- The text is what the registry would write of the tree it reads in it. -/
def compactText (text : Bytes) : Bool :=
  match parse text with
  | .ok tree => appendJsonValue tree == text
  | .error _ => false

theorem compactText_iff {text : Bytes} {v : Value} (h : Text v text) :
    compactText text = true ↔ appendJsonValue v.terminated = text := by
  have hparse := (parse_ok_iff text v.terminated).mpr ⟨v, h, rfl⟩
  rw [compactText, hparse]
  exact beq_iff_eq

theorem readable_of_compact {text : Bytes} {v : Value} (h : Text v text)
    (heq : appendJsonValue v.terminated = text) : Readable v := by
  have hreadable : Readable v.terminated := Derives.readable h
  have hspells := item_of_derives (derives_appendJsonValue hreadable)
  rw [heq] at hspells
  rwa [text_unique h hspells]

theorem joined_cancel {α : Type} (before : α → Bytes) (value : α → Value) (text other : α → Bytes)
    {close : UInt8} (hnumber : isNumberChar close = false) (hws : isWs close = false)
    {xs : List α} (htext : ∀ x ∈ xs, Derives (.item (value x)) (text x))
    (hother : ∀ x ∈ xs, Derives (.value (value x)) (other x))
    (heq : joined (xs.map fun x => before x ++ text x) ++ [close] =
      joined (xs.map fun x => before x ++ other x) ++ [close]) :
    ∀ x ∈ xs, text x = other x := by
  induction xs with
  | nil => simp
  | cons x xs ih =>
    have hx := htext x List.mem_cons_self
    have hx' := hother x List.mem_cons_self
    cases xs with
    | nil =>
      simp only [List.map_cons, List.map_nil, joined, List.append_assoc] at heq
      have hcancel := item_cancel hx hx' hnumber hnumber hws (List.append_cancel_left heq)
      intro y hy
      rw [List.mem_singleton.mp hy]
      exact hcancel.1
    | cons y ys =>
      simp only [List.map_cons, joined, List.append_assoc, List.cons_append] at heq
      obtain ⟨hsame, hrest⟩ := item_cancel hx hx' (by decide) (by decide) (by decide)
        (List.append_cancel_left heq)
      have hall := ih (fun z hz => htext z (List.mem_cons_of_mem _ hz))
        (fun z hz => hother z (List.mem_cons_of_mem _ hz))
        (by simpa only [List.map_cons] using (List.cons.inj hrest).2)
      intro z hz
      rcases List.mem_cons.mp hz with rfl | hmem
      · exact hsame
      · exact hall z hmem

theorem memberText_eq (key text : Bytes) :
    memberText key text = (chQuote :: (key ++ [chQuote, chColon])) ++ text := by
  simp [memberText]

namespace Piece

theorem WellFormed.compact_of_raws {p : Piece} (h : p.WellFormed)
    (hraws : ∀ text ∈ p.raws, compactText text = true) :
    Readable p.tree ∧ p.text = appendJsonValue p.tree := by
  induction h with
  | value h => exact ⟨h, rfl⟩
  | @raw text h =>
    obtain ⟨v, hv⟩ := h
    have hcompact := (compactText_iff hv).mp (hraws text List.mem_cons_self)
    have hreadable := readable_of_compact hv hcompact
    rw [tree, text_rawTree hv]
    rw [hreadable.terminated_eq] at hcompact
    exact ⟨hreadable, hcompact.symm⟩
  | @array items _ ih =>
    have hitems : ∀ item ∈ items, Readable item.tree ∧ item.text = appendJsonValue item.tree :=
      fun item hitem => ih item hitem fun text htext =>
        hraws text (mem_itemRaws.mpr ⟨item, hitem, htext⟩)
    rw [tree, text, itemTrees_eq_map, itemTexts_eq_map, appendJsonValue, appendJsonItems_eq_map,
      List.map_map]
    refine ⟨Readable.array fun v hv => ?_, ?_⟩
    · obtain ⟨item, hitem, rfl⟩ := List.mem_map.mp hv
      exact (hitems item hitem).1
    · rw [List.map_congr_left fun item hitem => (hitems item hitem).2]
      rfl
  | @object entries hkey _ ih =>
    have hentries : ∀ entry ∈ entries,
        Readable entry.2.tree ∧ entry.2.text = appendJsonValue entry.2.tree :=
      fun entry hentry => ih entry hentry fun text htext =>
        hraws text (mem_entryRaws.mpr ⟨entry, hentry, htext⟩)
    rw [tree, text, entryTrees_eq_map, entryTexts_eq_map, appendJsonValue,
      appendJsonEntries_eq_map, List.map_map]
    refine ⟨Readable.object (fun e he => ?_) (fun e he => ?_), ?_⟩
    · obtain ⟨entry, hentry, rfl⟩ := List.mem_map.mp he
      exact (hkey entry hentry).1
    · obtain ⟨entry, hentry, rfl⟩ := List.mem_map.mp he
      exact (hentries entry hentry).1
    · have hmember : ∀ entry ∈ entries, memberText entry.1 entry.2.text =
          memberText (entry.1.flatMap escapeByte) (appendJsonValue entry.2.tree) := by
        intro entry hentry
        rw [(hkey entry hentry).2, (hentries entry hentry).2]
      rw [List.map_congr_left hmember]
      rfl

theorem WellFormed.raws_of_compact {p : Piece} (h : p.WellFormed) (hreadable : Readable p.tree)
    (heq : p.text = appendJsonValue p.tree) : ∀ text ∈ p.raws, compactText text = true := by
  induction h with
  | value h => simp [raws]
  | @raw text h =>
    obtain ⟨v, hv⟩ := h
    rw [tree, text_rawTree hv] at hreadable heq
    intro other hother
    rw [List.mem_singleton.mp hother, compactText_iff hv, hreadable.terminated_eq]
    exact heq.symm
  | @array items hjson ih =>
    rw [tree, itemTrees_eq_map] at hreadable heq
    have hitems : ∀ item ∈ items, Readable item.tree := by
      cases hreadable with
      | array h => exact fun item hitem => h _ (List.mem_map_of_mem hitem)
    rw [text, itemTexts_eq_map, appendJsonValue, appendJsonItems_eq_map, List.map_map] at heq
    have hsame := joined_cancel (fun _ => []) tree text (fun item => appendJsonValue item.tree)
      (show isNumberChar chRBracket = false by decide) (by decide)
      (fun item hitem => (hjson item hitem).derives)
      (fun item hitem => derives_appendJsonValue (hitems item hitem)) (List.cons.inj heq).2
    intro raw hraw
    obtain ⟨item, hitem, hmem⟩ := mem_itemRaws.mp hraw
    exact ih item hitem (hitems item hitem) (hsame item hitem) raw hmem
  | @object entries hkey hjson ih =>
    rw [tree, entryTrees_eq_map] at hreadable heq
    have hentries : ∀ entry ∈ entries, Readable entry.2.tree := by
      cases hreadable with
      | object _ h =>
        intro entry hentry
        exact h (entry.1, entry.2.tree) (List.mem_map.mpr ⟨entry, hentry, rfl⟩)
    rw [text, entryTexts_eq_map, appendJsonValue, appendJsonEntries_eq_map, List.map_map] at heq
    have hmember : ∀ entry ∈ entries, ((fun e : Bytes × Value =>
          memberText (e.1.flatMap escapeByte) (appendJsonValue e.2)) ∘
            fun entry : Bytes × Piece => (entry.1, entry.2.tree)) entry =
        (chQuote :: (entry.1 ++ [chQuote, chColon])) ++ appendJsonValue entry.2.tree := by
      intro entry hentry
      rw [Function.comp_apply, (hkey entry hentry).2, memberText_eq]
    rw [List.map_congr_left hmember,
      List.map_congr_left fun entry _ => memberText_eq entry.1 entry.2.text] at heq
    have hsame := joined_cancel
      (fun entry : Bytes × Piece => chQuote :: (entry.1 ++ [chQuote, chColon]))
      (fun entry => entry.2.tree) (fun entry => entry.2.text)
      (fun entry => appendJsonValue entry.2.tree)
      (show isNumberChar chRBrace = false by decide) (by decide)
      (fun entry hentry => (hjson entry hentry).derives)
      (fun entry hentry => derives_appendJsonValue (hentries entry hentry))
      (List.cons.inj heq).2
    intro raw hraw
    obtain ⟨entry, hentry, hmem⟩ := mem_entryRaws.mp hraw
    exact ih entry hentry (hentries entry hentry) (hsame entry hentry) raw hmem

/-- **A piece is written compactly exactly when its raw texts are compact.**  Then it spells a
readable tree, and what is written is what the registry writes of that tree. -/
theorem WellFormed.compact_iff {p : Piece} (h : p.WellFormed) {v : Value} (hv : Readable v) :
    p.text = appendJsonValue v ↔ p.tree = v ∧ ∀ text ∈ p.raws, compactText text = true := by
  constructor
  · intro heq
    have hspells := item_of_derives (derives_appendJsonValue hv)
    rw [← heq] at hspells
    have htree : p.tree = v := text_unique h.derives hspells
    subst htree
    exact ⟨rfl, h.raws_of_compact hv heq⟩
  · intro hcond
    obtain ⟨rfl, hraws⟩ := hcond
    exact (h.compact_of_raws hraws).2

end Piece

end Dcc.Json
