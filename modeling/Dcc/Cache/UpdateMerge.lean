import Dcc.Cache.Update
import Mathlib.Data.List.Nodup
import Mathlib.Tactic.Cases

/-!
# What a partial update leaves in the cached entity

The record that the reader of `d` builds is described field by field: a field
that no member of the payload is stored in is blank, and every other field is
what the handlers of its keys stored, joined by `|=` for the flags of a user.
The merge view then keeps the cached field exactly when the record's is blank
and the payload does not mark the field's presence bit.

* `parse_record`, `parse_fields`: the record and the bits of a parsed payload;
* `gather_single`, `gather_other`: the last write to a field, and no write;
* `update_absent_iff`: the absent fields of a guild or a voice state keep their
  cached values exactly when no bit that several fields share wipes one.
-/

namespace Dcc.Cache.Merge

/-! ## The record of a parsed payload -/

/-- What the handler of a key stores in the entity of the event. -/
def Event.stored (e : Event) (k : Key) (raw : Raw) : Option Value :=
  if e.takes k raw then k.reader.read raw else none

/-- One member's part in the field `f`, where `read` gives its value. -/
def Event.collect (e : Event) (read : Key → Raw → Option Value) (f : Key)
    (acc : Option Value) (m : Key × Raw) : Option Value :=
  if m.1.field = f then
    match read m.1 m.2 with
    | none => acc
    | some v => some (acc.elim v fun old => e.put f old v)
  else acc

/-- The value that the members of a payload give the field `f`, if any does. -/
def Event.gather (e : Event) (read : Key → Raw → Option Value) (f : Key)
    (members : List (Key × Raw)) : Option Value :=
  members.foldl (e.collect read f) none

variable {e : Event}

variable {f : Key}

theorem blank_of_joins (h : e.joins f) : f.blank = .number 0 := by
  unfold Event.joins at h
  split at h
  · rfl
  · rfl
  · rfl
  · exact absurd h (by decide)

theorem put_blank (e : Event) (f : Key) (v : Value) : e.put f f.blank v = v := by
  unfold Event.put
  by_cases hj : e.joins f
  · rw [if_pos hj, blank_of_joins hj]
    cases v with
    | number n => simp [joinFlags]
    | _ => rfl
  · rw [if_neg hj]

theorem readMember_record {s s' : Parsed} {m : Key × Raw}
    {acc : Option Value} (h : e.readMember s m = some s') (hf : s.record f = acc.getD f.blank) :
    s'.record f = (e.collect e.stored f acc m).getD f.blank := by
  unfold Event.readMember at h
  obtain ⟨v, hread, rfl⟩ := Option.map_eq_some_iff.mp h
  by_cases htake : e.takes m.1 m.2
  · have hstored : e.stored m.1 m.2 = some v := by simp [Event.stored, htake, hread]
    by_cases hfield : m.1.field = f
    · subst hfield
      simp only [htake, if_true, Event.collect, hstored, Function.update_self, Option.getD_some, hf]
      cases acc with
      | none => exact put_blank e _ v
      | some old => rfl
    · have hne : f ≠ m.1.field := fun h => hfield h.symm
      simp only [htake, if_true, Event.collect, if_neg hfield, Function.update_of_ne hne, hf]
  · have hstored : e.stored m.1 m.2 = none := by simp [Event.stored, htake]
    by_cases hfield : m.1.field = f
    · simp [htake, Event.collect, hfield, hstored, hf]
    · simp [htake, Event.collect, hfield, hf]

variable {s' : Parsed}

theorem readMembers_record :
    ∀ {members : List (Key × Raw)} {s : Parsed} {acc : Option Value},
      members.foldlM e.readMember s = some s' → s.record f = acc.getD f.blank →
        s'.record f = (members.foldl (e.collect e.stored f) acc).getD f.blank := by
  intro members
  induction members with
  | nil =>
    intro s acc h hf
    obtain rfl : s = s' := by simpa using h
    exact hf
  | cons m rest ih =>
    intro s acc h hf
    rw [List.foldlM_cons] at h
    obtain ⟨s1, h1, h2⟩ := Option.bind_eq_some_iff.mp h
    exact ih h2 (readMember_record h1 hf)

variable {members : List (Key × Raw)} {s : Parsed}

/-- **A field of the record is what the payload's members store in it.** -/
theorem parse_record (h : e.parse members = some s) (f : Key) :
    s.record f = (e.gather e.stored f members).getD f.blank :=
  readMembers_record h rfl

variable {b : Presence}

theorem readMembers_fields :
    ∀ {members : List (Key × Raw)} {s : Parsed}, members.foldlM e.readMember s = some s' →
      (b ∈ s'.fields ↔ b ∈ s.fields ∨ ∃ m ∈ members, b ∈ m.1.marks m.2) := by
  intro members
  induction members with
  | nil =>
    intro s h
    obtain rfl : s = s' := by simpa using h
    simp
  | cons m rest ih =>
    intro s h
    rw [List.foldlM_cons] at h
    obtain ⟨s1, h1, h2⟩ := Option.bind_eq_some_iff.mp h
    obtain ⟨v, -, rfl⟩ := Option.map_eq_some_iff.mp h1
    rw [ih h2]
    simp only [List.mem_append, List.mem_cons, exists_eq_or_imp]
    tauto

/-- **The bits of a parsed payload are those its keys mark.** -/
theorem parse_fields (h : e.parse members = some s) (b : Presence) :
    b ∈ s.fields ↔ ∃ m ∈ members, b ∈ m.1.marks m.2 := by
  rw [readMembers_fields h]
  simp [Parsed.empty]

theorem readMembers_read :
    ∀ {members : List (Key × Raw)} {s : Parsed}, members.foldlM e.readMember s = some s' →
      ∀ m ∈ members, ∃ v, m.1.reader.read m.2 = some v := by
  intro members
  induction members with
  | nil =>
    intro s h m hm
    cases hm
  | cons m rest ih =>
    intro s h m' hm'
    rw [List.foldlM_cons] at h
    obtain ⟨s1, h1, h2⟩ := Option.bind_eq_some_iff.mp h
    rcases List.mem_cons.mp hm' with rfl | hrest
    · obtain ⟨v, hv, -⟩ := Option.map_eq_some_iff.mp h1
      exact ⟨v, hv⟩
    · exact ih h2 m' hrest

variable {read : Key → Raw → Option Value}

/-- Members of other fields do not count. -/
theorem gather_other :
    ∀ {members : List (Key × Raw)} {acc : Option Value}, (∀ m ∈ members, m.1.field ≠ f) →
      members.foldl (e.collect read f) acc = acc := by
  intro members
  induction members with
  | nil =>
    intro acc _
    rfl
  | cons m rest ih =>
    intro acc h
    have hm : e.collect read f acc m = acc :=
      if_neg (h m List.mem_cons_self)
    rw [List.foldl_cons, hm]
    exact ih fun m' hm' => h m' (List.mem_cons_of_mem _ hm')

/-- A field whose only key stands in the payload has that key's value. -/
theorem gather_single {raw : Raw} (hf : f.field = f) :
    ∀ {members : List (Key × Raw)}, (members.map Prod.fst).Nodup →
      (∀ m ∈ members, m.1.field = f → m.1 = f) → (f, raw) ∈ members →
        e.gather read f members = read f raw := by
  intro members
  unfold Event.gather
  induction members with
  | nil =>
    intro _ _ hmem
    cases hmem
  | cons m rest ih =>
    intro hnodup honly hmem
    rw [List.map_cons, List.nodup_cons] at hnodup
    rw [List.foldl_cons]
    rcases List.mem_cons.mp hmem with rfl | hrest
    · have hstep : e.collect read f none (f, raw) = read f raw := by
        simp only [Event.collect, hf, if_true]
        cases read f raw with
        | none => rfl
        | some v => rfl
      rw [hstep]
      apply gather_other
      intro m' hm' hfield
      have hkey : m'.1 = f := honly m' (List.mem_cons_of_mem _ hm') hfield
      have hmem' : m'.1 ∈ rest.map Prod.fst := List.mem_map_of_mem hm'
      exact hnodup.1 (hkey ▸ hmem')
    · have hother : m.1.field ≠ f := by
        intro hfield
        have hkey : m.1 = f := honly m List.mem_cons_self hfield
        exact hnodup.1 (hkey ▸ List.mem_map_of_mem hrest)
      have hstep : e.collect read f none m = none := if_neg hother
      rw [hstep]
      exact ih hnodup.2 (fun m' hm' => honly m' (List.mem_cons_of_mem _ hm')) hrest

/-! ## Keys and fields -/

theorem field_eq (k : Key) :
    k.field = k ∨ (k = .publicFlags ∧ k.field = .flags) ∨
      (k = .user .publicFlags ∧ k.field = .user .flags) ∨
      (k = .author .publicFlags ∧ k.field = .author .flags) := by
  unfold Key.field
  split
  · exact .inr (.inl ⟨rfl, rfl⟩)
  · exact .inr (.inr (.inl ⟨rfl, rfl⟩))
  · exact .inr (.inr (.inr ⟨rfl, rfl⟩))
  · exact .inl rfl

theorem key_of_field {f k : Key} (hj : ¬ e.joins f) (howns : e.owns k)
    (hk : k.field = f) : k = f := by
  rcases field_eq k with h | ⟨rfl, h⟩ | ⟨rfl, h⟩ | ⟨rfl, h⟩
  · exact h ▸ hk
  · subst hk
    cases e <;> simp_all [Event.owns, Event.joins, Key.field]
  · subst hk
    simp_all [Event.joins, Key.field]
  · subst hk
    simp_all [Event.joins, Key.field]

/-- The keys of the payload. -/
def Payload.names {e : Event} (p : Payload e) : List Key := p.members.map Prod.fst

theorem Payload.mem_names (p : Payload e) (k : Key) :
    k ∈ p.names ↔ ∃ raw, (k, raw) ∈ p.members := by
  simp [Payload.names]

theorem update_cases {p : Payload e} {existing after : Record}
    (h : e.update p existing = some after) :
    ∃ s, e.parse p.members = some s ∧
      (∀ f ∈ e.keys, s.record f ≠ f.blank ∧ s.record f = existing f) ∧
      after = e.mergeView s.record existing s.fields := by
  obtain ⟨s, hs, hrest⟩ := Option.bind_eq_some_iff.mp h
  split at hrest
  · next hkeys => exact ⟨s, hs, hkeys, (Option.some.inj hrest).symm⟩
  · cases hrest

/-! ## Absent fields -/

/-- The fields that share one presence bit: the limits of a guild and the flags
of a voice state. -/
def Event.grouped : Event → Key → Bool
  | .guildUpdate, .limit _ => true
  | .voiceStateUpdate, .voiceFlag _ => true
  | _, _ => false

/-- The events of guilds and of voice states. -/
def Event.ofGuildOrVoice (e : Event) : Prop := e = .guildUpdate ∨ e = .voiceStateUpdate

theorem roleMarks_subset {k : RoleKey} (h : b ∈ k.marks) :
    b ∈ [Presence.roleName, .rolePermissions, .roleColor, .rolePosition, .roleHoist,
      .roleManaged, .roleMentionable] := by
  cases k <;> simp_all [RoleKey.marks]

theorem mark_of_guard (he : e.ofGuildOrVoice) {f k : Key} {raw : Raw}
    (hguard : e.guard f = some b) (hmark : b ∈ k.marks raw) :
    k = f ∨ (e.grouped f ∧ e.grouped k) := by
  unfold Key.marks at hmark
  rcases he with rfl | rfl
  all_goals
    first
    | (change guildGuard f = some b at hguard; unfold guildGuard at hguard)
    | (change voiceStateGuard f = some b at hguard; unfold voiceStateGuard at hguard)
    split at hguard <;> simp only [Option.some.injEq, reduceCtorEq] at hguard <;> subst hguard
    -- the bit is known here: each key marks it as the statement allows, or does not
    all_goals
      split at hmark <;> first
      | (exact .inl rfl)
      | (exact .inr ⟨rfl, rfl⟩)
      | (exact absurd hmark (by decide))
      | (exact absurd (roleMarks_subset hmark) (by decide))
      | (split at hmark <;> exact absurd hmark (by decide))

theorem guard_of_grouped {f k : Key} (hf : e.grouped f) (hk : e.grouped k) (raw : Raw) :
    ∃ b, e.guard f = some b ∧ b ∈ k.marks raw := by
  unfold Event.grouped at hf hk
  split at hf
  · split at hk <;> simp_all [Event.guard, guildGuard, Key.marks]
  · split at hk <;> simp_all [Event.guard, voiceStateGuard, Key.marks]
  · cases hf

theorem parse_absent {p : Payload e}
    (h : e.parse p.members = some s) (hfield : ∀ m ∈ p.members, m.1.field ≠ f) :
    s.record f = f.blank := by
  rw [parse_record h f]
  unfold Event.gather
  rw [gather_other hfield]
  rfl

theorem field_of_owns (he : e.ofGuildOrVoice) {k : Key} (h : e.owns k) :
    k.field = k := by
  rcases field_eq k with hk | ⟨rfl, -⟩ | ⟨rfl, -⟩ | ⟨rfl, -⟩
  · exact hk
  all_goals
    rcases he with rfl | rfl
    · exact absurd h (by decide)
    · exact absurd h (by decide)

/-- **A guild or voice state keeps its absent fields exactly when no shared bit
wipes one.**  The payload may leave out any keys; the fields it leaves out keep
their cached values if and only if, whenever it carries a key of a group that
shares one presence bit, the cached fields of the group it leaves out are zero
already. -/
theorem update_absent_iff {e : Event} (he : e.ofGuildOrVoice) (p : Payload e)
    (existing after : Record) (h : e.update p existing = some after) :
    (∀ f, e.owns f → f ∉ p.names → after f = existing f) ↔
      ∀ f, e.grouped f → f ∉ p.names → (∃ g ∈ p.names, e.grouped g) → existing f = f.blank := by
  obtain ⟨s, hs, -, rfl⟩ := update_cases h
  have hblank : ∀ f, f ∉ p.names → s.record f = f.blank := by
    intro f hf
    apply parse_absent hs
    intro m hm hfield
    rw [field_of_owns he (p.own m hm)] at hfield
    exact hf (hfield ▸ List.mem_map_of_mem hm)
  have howner : ∀ f, e.owner f = none := by
    rcases he with rfl | rfl <;> intro f <;> rfl
  have hview : ∀ f, e.mergeView s.record existing s.fields f =
      e.keep s.fields f (s.record f) (existing f) := by
    intro f
    simp only [Event.mergeView, howner f]
  have hmarked : ∀ f, (∃ b ∈ e.guard f, b ∈ s.fields) → f ∉ p.names →
      e.grouped f ∧ ∃ g ∈ p.names, e.grouped g := by
    rintro f ⟨b, hb, hin⟩ hf
    obtain ⟨m, hm, hmark⟩ := (parse_fields hs b).mp hin
    rcases mark_of_guard he hb hmark with rfl | ⟨hgf, hgk⟩
    · exact absurd (List.mem_map_of_mem hm) hf
    · exact ⟨hgf, m.1, List.mem_map_of_mem hm, hgk⟩
  constructor
  · intro hkeep f hgf hf hg
    obtain ⟨g, hg, hgg⟩ := hg
    obtain ⟨raw, hmem⟩ := (p.mem_names g).mp hg
    obtain ⟨b, hguard, hmark⟩ := guard_of_grouped hgf hgg raw
    have hin : b ∈ s.fields := (parse_fields hs b).mpr ⟨_, hmem, hmark⟩
    have howns : e.owns f := by
      rcases he with rfl | rfl <;> unfold Event.grouped at hgf <;> split at hgf <;>
        simp_all [Event.owns]
    rw [← hkeep f howns hf, hview f, Event.keep, if_neg, hblank f hf]
    intro hcond
    exact hcond.1 b hguard hin
  · intro hzero f _ hf
    rw [hview f, Event.keep]
    by_cases hguard : ∀ b ∈ e.guard f, b ∉ s.fields
    · rw [if_pos ⟨hguard, hblank f hf⟩]
    · rw [if_neg fun hcond => hguard hcond.1, hblank f hf]
      push Not at hguard
      obtain ⟨hgf, hg⟩ := hmarked f hguard hf
      exact (hzero f hgf hf hg).symm

/-- A voice state update that carries one flag, `mute`. -/
def muteUpdate : Payload .voiceStateUpdate where
  members := [(.guildId, .number 1), (.userId, .number 2), (.channelId, .number 3),
    (.voiceFlag .mute, .bool true)]
  distinct := by decide
  own := by decide
  author := fun h => absurd h (by decide)

/-- A cached voice state of the same user, with the flag `deaf` as given. -/
def voiceState (deaf : Nat) : Record
  | .guildId => .number 1
  | .userId => .number 2
  | .channelId => .number 3
  | .voiceFlag .deaf => .number deaf
  | f => f.blank

theorem update_absent_undeafened :
    ∃ after, Event.voiceStateUpdate.update muteUpdate (voiceState 0) = some after ∧
      ∀ f, Event.voiceStateUpdate.owns f → f ∉ muteUpdate.names → after f = voiceState 0 f := by
  refine ⟨_, rfl, (update_absent_iff (.inr rfl) muteUpdate (voiceState 0) _ rfl).mpr ?_⟩
  intro f hf _ _
  cases f with
  | voiceFlag k => cases k <;> rfl
  | _ => cases hf

/-- The update that mutes a deafened user takes the deafness away. -/
theorem mute_update_wipes_deaf :
    ¬ ∀ (p : Payload .voiceStateUpdate) (existing after : Record),
      Event.voiceStateUpdate.update p existing = some after →
        ∀ f, Event.voiceStateUpdate.owns f → f ∉ p.names → after f = existing f := by
  intro h
  have hdeaf := h muteUpdate (voiceState 1) _ rfl (.voiceFlag .deaf) rfl (by decide)
  exact absurd hdeaf (by decide)

end Dcc.Cache.Merge
