import Dcc.Flow.Registry

/-!
# Duplicate deliveries are refused

Every operation of the registry keeps `Sound`: the live entries are the registered flows,
their identities differ, there is room for a tombstone of each of them, and the counters
are those of the tables.

* `sound_run` — every run keeps the tables sound;
* `tombstone_stays_run` — a tombstone is in the table until its time;
* `duplicates_refused` — so a delivery whose flow lives, or was retired less than the
  lifetime of a tombstone ago, is refused.
-/

namespace Dcc.Flow

variable {δ : Type}

/-- The flows in the live entries. -/
def Registry.live (r : Registry δ) : List Addr := r.liveEntries.reduceOption

/-- The tombstones in use. -/
def Registry.graves (r : Registry δ) : List (Tombstone δ) := r.tombstones.reduceOption

/-- The identity of a flow in memory. -/
def Registry.identity (r : Registry δ) (flow : Addr) : Option Identity :=
  (r.heap flow).map FlowRecord.interaction

/-- What `dcc_flow_create` accepts as an identity. -/
def Identity.Valid (interaction : Identity) : Prop :=
  interaction.id ≠ 0 ∧ interaction.applicationId ≠ 0 ∧ interaction.token ≠ []

/-- What every operation keeps. -/
structure Registry.Sound (r : Registry δ) : Prop where
  listed (flow : Addr) : flow ∈ r.live ↔
    ∃ record, r.heap flow = some record ∧ record.registered = true
  nodup : r.live.Nodup
  distinct (f g : Addr) : f ∈ r.live → g ∈ r.live → r.identity f = r.identity g → f = g
  room : r.live.length + r.graves.length ≤ r.tombstones.length
  words : r.tombstones.length < wordSize
  liveCounter : r.stats.interactionLiveQueues = r.live.length
  graveCounter : r.stats.interactionTombstones = r.graves.length
  valid (flow : Addr) (record : FlowRecord) : r.heap flow = some record → record.interaction.Valid

section Steps

variable {r : Registry δ} {flow : Addr} {record : FlowRecord} {digest : Bytes → δ}
  {nowNs : UInt64} {nowMs : Nat}

@[simp] theorem expire_live : (r.expire nowMs).live = r.live := rfl

@[simp] theorem expire_heap : (r.expire nowMs).heap = r.heap := rfl

theorem expire_graves : (r.expire nowMs).graves = r.graves.filter (Tombstone.stays nowMs) :=
  expireLocked_held nowMs r.tombstones _

@[simp] theorem expire_length : (r.expire nowMs).tombstones.length = r.tombstones.length :=
  expireLocked_length nowMs r.tombstones _

theorem Registry.Sound.expire (h : r.Sound) (nowMs : Nat) : (r.expire nowMs).Sound where
  listed := h.listed
  nodup := h.nodup
  distinct := h.distinct
  room := by
    have hfewer : (r.expire nowMs).graves.length ≤ r.graves.length := by
      rw [expire_graves]
      exact List.length_filter_le _ _
    have hroom := h.room
    rw [expire_live, expire_length]
    omega
  words := by
    rw [expire_length]
    exact h.words
  liveCounter := h.liveCounter
  graveCounter := expireLocked_counter nowMs r.tombstones _ 0 h.graveCounter
  valid := h.valid

theorem Registry.Sound.withStats (h : r.Sound) {stats : Stats}
    (hlive : stats.interactionLiveQueues = r.stats.interactionLiveQueues)
    (hgraves : stats.interactionTombstones = r.stats.interactionTombstones) :
    ({ r with stats } : Registry δ).Sound :=
  { h with
    liveCounter := hlive.trans h.liveCounter
    graveCounter := hgraves.trans h.graveCounter }

theorem Registry.Sound.withHeap (h : r.Sound) {slot : Option FlowRecord}
    (hold : ∀ record, r.heap flow = some record → record.registered = false)
    (hnew : ∀ record, slot = some record → record.registered = false ∧ record.interaction.Valid) :
    ({ r with heap := Function.update r.heap flow slot } : Registry δ).Sound := by
  have hnot : flow ∉ r.live := by
    intro hmem
    obtain ⟨record, hrecord, hreg⟩ := (h.listed flow).mp hmem
    rw [hold record hrecord] at hreg
    cases hreg
  have hsame : ∀ f ∈ r.live, Function.update r.heap flow slot f = r.heap f := by
    intro f hf
    have hne : f ≠ flow := fun heq => hnot (heq ▸ hf)
    rw [Function.update_of_ne hne]
  refine { h with listed := ?_, distinct := ?_, valid := ?_ }
  · intro f
    by_cases hf : f = flow
    · subst hf
      refine ⟨fun hmem => absurd hmem hnot, ?_⟩
      intro ⟨record, hrecord, hreg⟩
      have hslot : slot = some record := by simpa using hrecord
      rw [(hnew record hslot).1] at hreg
      cases hreg
    · show f ∈ r.live ↔
        ∃ record, Function.update r.heap flow slot f = some record ∧ record.registered = true
      rw [h.listed f, Function.update_of_ne hf]
  · intro f g hf hg hid
    refine h.distinct f g hf hg ?_
    simpa only [Registry.identity, hsame f hf, hsame g hg] using hid
  · intro f record hrecord
    by_cases hf : f = flow
    · subst hf
      exact (hnew record (by simpa using hrecord)).2
    · exact h.valid f record (by simpa [Function.update_of_ne hf] using hrecord)

theorem finalize_of_registered (hflow : r.heap flow = some record)
    (hreg : record.registered = true) :
    r.finalize digest nowNs flow = { r with
        liveEntries := Slots.clear flow r.liveEntries
        tombstones := (bury (record.interaction.tombstone digest
          (addMs (restNowMs nowNs) r.tombstoneTtlMs)) r.tombstones r.stats).1
        stats := (bury (record.interaction.tombstone digest
          (addMs (restNowMs nowNs) r.tombstoneTtlMs)) r.tombstones r.stats).2.dropLive
        heap := Function.update r.heap flow none } := by
  simp [Registry.finalize, Registry.freeStorage, Registry.retire, hflow, hreg]

theorem finalize_of_unregistered (hflow : r.heap flow = some record)
    (hreg : record.registered = false) :
    r.finalize digest nowNs flow = { r with heap := Function.update r.heap flow none } := by
  simp [Registry.finalize, Registry.freeStorage, Registry.retire, hflow, hreg]

theorem Registry.Sound.free_of_live (h : r.Sound) (hflow : flow ∈ r.live) :
    none ∈ r.tombstones := by
  have hpos := List.length_pos_of_mem hflow
  have hroom := h.room
  exact Slots.exists_free (show r.graves.length < r.tombstones.length by omega)

theorem bury_of_free {item : Tombstone δ} {tombstones : List (Option (Tombstone δ))}
    {stats : Stats} (hfree : none ∈ tombstones) :
    bury item tombstones stats = (Slots.fill item tombstones, stats.addTombstone) := by
  have hany : tombstones.any Option.isNone = true :=
    List.any_eq_true.mpr ⟨none, hfree, rfl⟩
  rw [bury, if_pos hany]

/-- Retiring a live flow moves it from one table to the other. -/
theorem Registry.Sound.finalize_registered (h : r.Sound) (hflow : r.heap flow = some record)
    (hreg : record.registered = true) : (r.finalize digest nowNs flow).Sound := by
  have hlive : flow ∈ r.live := (h.listed flow).mpr ⟨record, hflow, hreg⟩
  have hfree := h.free_of_live hlive
  rw [finalize_of_registered hflow hreg, bury_of_free hfree]
  set item := record.interaction.tombstone digest (addMs (restNowMs nowNs) r.tombstoneTtlMs)
  have hmem : ∀ f, f ∈ (Slots.clear flow r.liveEntries).reduceOption ↔ f ≠ flow ∧ f ∈ r.live := by
    intro f
    rw [Slots.reduceOption_clear]
    exact h.nodup.mem_erase_iff
  have hlength : (Slots.clear flow r.liveEntries).reduceOption.length + 1 = r.live.length := by
    have hpos := List.length_pos_of_mem hlive
    rw [Slots.reduceOption_clear]
    show (r.live.erase flow).length + 1 = r.live.length
    rw [List.length_erase_of_mem hlive]
    exact Nat.sub_add_cancel hpos
  have hgraves : (Slots.fill item r.tombstones).reduceOption.length = r.graves.length + 1 :=
    (Slots.reduceOption_fill hfree).length_eq
  have hroom := h.room
  have hwords := h.words
  constructor
  · intro f
    show f ∈ (Slots.clear flow r.liveEntries).reduceOption ↔
      ∃ record, Function.update r.heap flow none f = some record ∧ record.registered = true
    rw [hmem]
    by_cases hf : f = flow
    · subst hf
      simp
    · simp [hf, h.listed f]
  · show (Slots.clear flow r.liveEntries).reduceOption.Nodup
    rw [Slots.reduceOption_clear]
    exact h.nodup.erase flow
  · intro f g hf hg hid
    obtain ⟨hfne, hf⟩ := (hmem f).mp hf
    obtain ⟨hgne, hg⟩ := (hmem g).mp hg
    refine h.distinct f g hf hg ?_
    simpa [Registry.identity, hfne, hgne] using hid
  · show (Slots.clear flow r.liveEntries).reduceOption.length +
      (Slots.fill item r.tombstones).reduceOption.length ≤ (Slots.fill item r.tombstones).length
    rw [hgraves, Slots.length_fill]
    omega
  · show (Slots.fill item r.tombstones).length < wordSize
    rw [Slots.length_fill]
    exact hwords
  · show (if r.stats.interactionLiveQueues ≠ 0 then r.stats.interactionLiveQueues - 1
      else r.stats.interactionLiveQueues) = (Slots.clear flow r.liveEntries).reduceOption.length
    rw [h.liveCounter]
    split <;> omega
  · show wordAdd r.stats.interactionTombstones 1 =
      (Slots.fill item r.tombstones).reduceOption.length
    rw [h.graveCounter, hgraves, wordAdd_of_lt (by omega)]
  · intro f found hfound
    by_cases hf : f = flow
    · subst hf
      simp at hfound
    · exact h.valid f found (by simpa [hf] using hfound)

theorem Registry.Sound.finalize (h : r.Sound) (hflow : r.heap flow = some record) :
    (r.finalize digest nowNs flow).Sound := by
  cases hreg : record.registered with
  | true => exact h.finalize_registered hflow hreg
  | false =>
    rw [finalize_of_unregistered hflow hreg]
    refine h.withHeap ?_ (by simp)
    intro found hfound
    obtain rfl : record = found := by simpa [hflow] using hfound
    exact hreg

end Steps

section Registration

variable [DecidableEq δ] {r : Registry δ} {flow : Addr} {record : FlowRecord}
  {digest : Bytes → δ} {nowNs : UInt64}

/-- The identity is that of a live flow or of a tombstone. -/
def Registry.Known (digest : Bytes → δ) (r : Registry δ) (interaction : Identity) : Prop :=
  (∃ item ∈ r.graves, item.names digest interaction = true) ∨
    ∃ flow ∈ r.live, r.identity flow = some interaction

theorem register_of_known (hflow : r.heap flow = some record)
    (hknown : (r.expire (restNowMs nowNs)).Known digest record.interaction) :
    (r.register digest nowNs flow).1 = .state := by
  simp only [Registry.register, hflow]
  set e := r.expire (restNowMs nowNs)
  cases htomb : scanTombstones digest record.interaction e.tombstones 0 with
  | none => rfl
  | some tombstoneCount =>
    have hlive : scanLive e.heap record.interaction e.liveEntries 0 none 0 = none := by
      rw [scanLive_none_iff]
      rcases hknown with ⟨item, hitem, hnames⟩ | ⟨other, hother, hid⟩
      · have hany : e.tombstones.reduceOption.any (Tombstone.names digest record.interaction) =
            true := List.any_eq_true.mpr ⟨item, hitem, hnames⟩
        rw [scanTombstones_eq, if_pos hany] at htomb
        cases htomb
      · exact ⟨other, hother, decide_eq_true hid⟩
    simp only [hlive]

/-- What a registration does: the expired tombstones go, and either nothing else happens
but a count, or the flow takes a free entry. -/
theorem register_cases (digest : Bytes → δ) (nowNs : UInt64) (hflow : r.heap flow = some record) :
    (∃ status stats, r.register digest nowNs flow =
        (status, { r.expire (restNowMs nowNs) with stats }) ∧ status ≠ .ok ∧
      stats.interactionLiveQueues = (r.expire (restNowMs nowNs)).stats.interactionLiveQueues ∧
      stats.interactionTombstones = (r.expire (restNowMs nowNs)).stats.interactionTombstones) ∨
    ∃ i, r.liveEntries[i]? = some none ∧
      ¬ (r.expire (restNowMs nowNs)).Known digest record.interaction ∧
      (r.expire (restNowMs nowNs)).live.length + (r.expire (restNowMs nowNs)).graves.length <
        (r.expire (restNowMs nowNs)).tombstones.length ∧
      r.register digest nowNs flow = (.ok, { r.expire (restNowMs nowNs) with
          liveEntries := r.liveEntries.set i (some flow)
          stats := (r.expire (restNowMs nowNs)).stats.addLive
          heap := Function.update r.heap flow (some { record with registered := true }) }) := by
  simp only [Registry.register, hflow]
  set e := r.expire (restNowMs nowNs)
  cases htomb : scanTombstones digest record.interaction e.tombstones 0 with
  | none => exact Or.inl ⟨_, _, rfl, by simp, rfl, rfl⟩
  | some tombstoneCount =>
    rw [scanTombstones_eq] at htomb
    split at htomb
    · cases htomb
    rename_i hnone
    obtain rfl : e.graves.length = tombstoneCount := by simpa [Registry.graves] using htomb
    cases hscan : scanLive e.heap record.interaction e.liveEntries 0 none 0 with
    | none => exact Or.inl ⟨_, _, rfl, by simp, rfl, rfl⟩
    | some found =>
      obtain ⟨free, liveCount⟩ := found
      obtain ⟨hcount, hfree⟩ := scanLive_some hscan
      cases free with
      | none => exact Or.inl ⟨_, _, rfl, by simp, rfl, rfl⟩
      | some freeIndex =>
        simp only
        split
        · exact Or.inl ⟨_, _, rfl, by simp, rfl, rfl⟩
        · rename_i hroom
          rcases hfree with hfree | ⟨i, hi, hentry⟩
          · cases hfree
          obtain rfl : freeIndex = i := by simpa using hi
          have hlive : e.live.length = liveCount := by simpa [Registry.live] using hcount.symm
          refine Or.inr ⟨freeIndex, hentry, ?_, ?_, rfl⟩
          · intro hknown
            rcases hknown with ⟨item, hitem, hnames⟩ | ⟨other, hother, hid⟩
            · exact hnone (List.any_eq_true.mpr ⟨item, hitem, hnames⟩)
            · have hscanned : scanLive e.heap record.interaction e.liveEntries 0 none 0 = none := by
                rw [scanLive_none_iff]
                exact ⟨other, hother, decide_eq_true hid⟩
              rw [hscanned] at hscan
              cases hscan
          · rw [hlive]
            omega

/-- A registered flow takes its entry in a sound registry. -/
theorem Registry.Sound.add (h : r.Sound) {i : Nat} (hflow : r.heap flow = some record)
    (hreg : record.registered = false) (hentry : r.liveEntries[i]? = some none)
    (hnew : ¬ r.Known digest record.interaction)
    (hroom : r.live.length + r.graves.length < r.tombstones.length) :
    ({ r with
      liveEntries := r.liveEntries.set i (some flow)
      stats := r.stats.addLive
      heap := Function.update r.heap flow (some { record with registered := true }) } :
        Registry δ).Sound := by
  have hperm : (r.liveEntries.set i (some flow)).reduceOption.Perm (flow :: r.live) :=
    Slots.reduceOption_set hentry
  have hnot : flow ∉ r.live := by
    intro hmem
    obtain ⟨found, hfound, hfoundReg⟩ := (h.listed flow).mp hmem
    obtain rfl : record = found := by simpa [hflow] using hfound
    rw [hreg] at hfoundReg
    cases hfoundReg
  have hother : ∀ f ∈ r.live, f ≠ flow := fun f hf heq => hnot (heq ▸ hf)
  have hfresh : ∀ f ∈ r.live, r.identity f ≠ some record.interaction :=
    fun f hf hid => hnew (Or.inr ⟨f, hf, hid⟩)
  have hwords := h.words
  constructor
  · intro f
    show f ∈ (r.liveEntries.set i (some flow)).reduceOption ↔ ∃ found,
      Function.update r.heap flow (some { record with registered := true }) f = some found ∧
        found.registered = true
    rw [hperm.mem_iff, List.mem_cons]
    by_cases hf : f = flow
    · subst hf
      simp
    · simp [hf, h.listed f]
  · exact hperm.nodup_iff.mpr (List.nodup_cons.mpr ⟨hnot, h.nodup⟩)
  · intro f g hfmem hgmem hid
    rcases List.mem_cons.mp (hperm.mem_iff.mp hfmem) with rfl | hf <;>
      rcases List.mem_cons.mp (hperm.mem_iff.mp hgmem) with rfl | hg
    · rfl
    · have hid' : some record.interaction = r.identity g := by
        simpa [Registry.identity, hother g hg] using hid
      exact absurd hid'.symm (hfresh g hg)
    · have hid' : r.identity f = some record.interaction := by
        simpa [Registry.identity, hother f hf] using hid
      exact absurd hid' (hfresh f hf)
    · refine h.distinct f g hf hg ?_
      simpa [Registry.identity, hother f hf, hother g hg] using hid
  · show (r.liveEntries.set i (some flow)).reduceOption.length + r.graves.length ≤ _
    rw [hperm.length_eq, List.length_cons]
    show r.live.length + 1 + r.graves.length ≤ r.tombstones.length
    omega
  · exact hwords
  · show wordAdd r.stats.interactionLiveQueues 1 = _
    rw [h.liveCounter, wordAdd_of_lt (by omega)]
    exact hperm.length_eq.symm
  · exact h.graveCounter
  · intro f found hfound
    by_cases hf : f = flow
    · subst hf
      obtain rfl : { record with registered := true } = found := by simpa using hfound
      exact h.valid f record hflow
    · exact h.valid f found (by simpa [hf] using hfound)

theorem Registry.Sound.register (h : r.Sound) (digest : Bytes → δ) (nowNs : UInt64)
    (hflow : r.heap flow = some record) (hreg : record.registered = false) :
    (r.register digest nowNs flow).2.Sound := by
  have hexpired := h.expire (restNowMs nowNs)
  obtain ⟨status, stats, heq, -, hlive, hgraves⟩ | ⟨i, hentry, hnew, hroom, heq⟩ :=
    register_cases digest nowNs hflow
  · rw [heq]
    exact hexpired.withStats hlive hgraves
  · rw [heq]
    exact hexpired.add hflow hreg hentry hnew hroom

theorem Registry.Sound.flowCreate (h : r.Sound) (hfresh : r.heap flow = none)
    (interaction : Identity) (prepared : Status) :
    (r.flowCreate digest nowNs flow interaction prepared).2.Sound := by
  rw [Registry.flowCreate]
  split
  · exact h
  rename_i hvalid
  split
  · exact h
  set placed : Registry δ :=
    { r with heap := Function.update r.heap flow (some ⟨interaction, false⟩) }
  have hvalid : interaction.Valid := by simpa [Identity.Valid] using hvalid
  have hflow : placed.heap flow = some ⟨interaction, false⟩ := Function.update_self _ _ _
  have hplaced : placed.Sound := by
    refine h.withHeap (by simp [hfresh]) ?_
    intro found hfound
    obtain rfl : (⟨interaction, false⟩ : FlowRecord) = found := by simpa using hfound
    exact ⟨rfl, hvalid⟩
  have hsound := hplaced.register digest nowNs hflow rfl
  simp only
  split
  · rename_i hstatus
    obtain ⟨status, stats, heq, -⟩ | ⟨i, -, -, -, heq⟩ := register_cases digest nowNs hflow
    · have hstill : (placed.register digest nowNs flow).2.heap flow = some ⟨interaction, false⟩ := by
        rw [heq]
        exact hflow
      exact hsound.finalize hstill
    · rw [heq] at hstatus
      exact absurd rfl hstatus
  · exact hsound

theorem register_graves (hflow : r.heap flow = some record) :
    (r.register digest nowNs flow).2.graves =
      r.graves.filter (Tombstone.stays (restNowMs nowNs)) := by
  obtain ⟨status, stats, heq, -⟩ | ⟨i, -, -, -, heq⟩ := register_cases digest nowNs hflow
  · rw [heq]
    exact expire_graves
  · rw [heq]
    exact expire_graves

theorem flowCreate_graves {item : Tombstone δ} (hitem : item ∈ r.graves)
    (hearly : restNowMs nowNs < item.expiryMs) (interaction : Identity) (prepared : Status) :
    item ∈ (r.flowCreate digest nowNs flow interaction prepared).2.graves := by
  rw [Registry.flowCreate]
  split
  · exact hitem
  split
  · exact hitem
  set placed : Registry δ :=
    { r with heap := Function.update r.heap flow (some ⟨interaction, false⟩) }
  have hflow : placed.heap flow = some ⟨interaction, false⟩ := Function.update_self _ _ _
  have hkept : item ∈ (placed.register digest nowNs flow).2.graves := by
    rw [register_graves hflow]
    exact List.mem_filter.mpr ⟨hitem, by simpa [Tombstone.stays] using hearly⟩
  simp only
  split
  · rename_i hstatus
    obtain ⟨status, stats, heq, -⟩ | ⟨i, -, -, -, heq⟩ := register_cases digest nowNs hflow
    · have hstill : (placed.register digest nowNs flow).2.heap flow = some ⟨interaction, false⟩ := by
        rw [heq]
        exact hflow
      rw [finalize_of_unregistered hstill rfl]
      exact hkept
    · rw [heq] at hstatus
      exact absurd rfl hstatus
  · exact hkept

theorem flowCreate_of_known {interaction : Identity} (hvalid : interaction.Valid)
    (hfresh : r.heap flow = none) (hlive : ∀ f ∈ r.live, r.heap f ≠ none)
    (hknown : (r.expire (restNowMs nowNs)).Known digest interaction) (prepared : Status) :
    (r.flowCreate digest nowNs flow interaction prepared).1 =
      if prepared = .ok then .state else prepared := by
  obtain ⟨hid, happ, htoken⟩ := hvalid
  by_cases hprepared : prepared = .ok
  · set placed : Registry δ :=
      { r with heap := Function.update r.heap flow (some ⟨interaction, false⟩) }
    have hflow : placed.heap flow = some ⟨interaction, false⟩ := Function.update_self _ _ _
    have hplaced : (placed.expire (restNowMs nowNs)).Known digest interaction := by
      rcases hknown with hgrave | ⟨other, hother, hidentity⟩
      · exact Or.inl hgrave
      · have hne : other ≠ flow := fun heq => hlive other hother (heq ▸ hfresh)
        exact Or.inr ⟨other, hother, by
          simpa [Registry.identity, placed, Function.update_of_ne hne] using hidentity⟩
    have hstate : (placed.register digest nowNs flow).1 = .state := register_of_known hflow hplaced
    simp [Registry.flowCreate, hid, happ, htoken, hprepared, placed, hstate]
  · simp [Registry.flowCreate, hid, happ, htoken, hprepared]

end Registration

section Graves

variable {r : Registry δ} {flow : Addr} {record : FlowRecord} {digest : Bytes → δ}
  {nowNs : UInt64}

theorem Registry.Sound.finalize_graves (h : r.Sound) (hflow : r.heap flow = some record)
    (hreg : record.registered = true) :
    (r.finalize digest nowNs flow).graves.Perm
      (record.interaction.tombstone digest (addMs (restNowMs nowNs) r.tombstoneTtlMs) ::
        r.graves) := by
  have hfree := h.free_of_live ((h.listed flow).mpr ⟨record, hflow, hreg⟩)
  rw [finalize_of_registered hflow hreg, bury_of_free hfree]
  exact Slots.reduceOption_fill hfree

theorem Registry.Sound.mem_finalize (h : r.Sound) (hflow : r.heap flow = some record)
    {item : Tombstone δ} (hitem : item ∈ r.graves) :
    item ∈ (r.finalize digest nowNs flow).graves := by
  cases hreg : record.registered with
  | true => exact (h.finalize_graves hflow hreg).mem_iff.mpr (List.mem_cons_of_mem _ hitem)
  | false =>
    rw [finalize_of_unregistered hflow hreg]
    exact hitem

variable {maxLiveQueues maxTombstones ttlMs : Nat}

theorem init_sound (hinit : registryInit maxLiveQueues maxTombstones ttlMs = some r) : r.Sound := by
  rw [registryInit] at hinit
  split at hinit
  · cases hinit
  rename_i hsizes
  obtain rfl := Option.some.inj hinit
  have hwords : wordMax / tombstoneSize < wordSize := by decide
  constructor <;>
    simp_all [Registry.live, Registry.graves, List.reduceOption_replicate_none]
  omega

/-- The lifetime of tombstones and the size of their table are those of the client. -/
def Registry.Sized (ttlMs maxTombstones : Nat) (r : Registry δ) : Prop :=
  r.tombstoneTtlMs = ttlMs ∧ r.tombstones.length = maxTombstones

theorem finalize_sized {ttlMs maxTombstones : Nat} (h : r.Sized ttlMs maxTombstones) :
    (r.finalize digest nowNs flow).Sized ttlMs maxTombstones := by
  cases hflow : r.heap flow with
  | none =>
    simp only [Registry.finalize, Registry.freeStorage, Registry.retire, hflow]
    exact h
  | some record =>
    cases hreg : record.registered with
    | false =>
      rw [finalize_of_unregistered hflow hreg]
      exact h
    | true =>
      rw [finalize_of_registered hflow hreg, bury]
      split
      · exact ⟨h.1, Slots.length_fill.trans h.2⟩
      · exact h

theorem init_sized {client : Registry δ}
    (hinit : registryInit maxLiveQueues maxTombstones ttlMs = some client) :
    client.Sized ttlMs maxTombstones := by
  rw [registryInit] at hinit
  split at hinit
  · cases hinit
  obtain rfl := Option.some.inj hinit
  exact ⟨rfl, List.length_replicate⟩

end Graves

section Runs

variable [DecidableEq δ] {digest : Bytes → δ} {s : System δ} {op : Op} {item : Tombstone δ}

theorem sound_step (h : s.registry.Sound) (hok : s.Allows op) :
    (s.step digest op).registry.Sound := by
  cases op with
  | create nowNs flow interaction prepared => exact h.flowCreate hok.2 interaction prepared
  | finalize nowNs flow =>
    obtain ⟨record, hflow⟩ := Option.ne_none_iff_exists'.mp hok.2
    exact h.finalize hflow

theorem tombstone_stays_step (digest : Bytes → δ) (h : s.registry.Sound) (hok : s.Allows op)
    (hitem : item ∈ s.registry.graves) (hearly : op.nowMs < item.expiryMs) :
    item ∈ (s.step digest op).registry.graves := by
  cases op with
  | create nowNs flow interaction prepared =>
    exact flowCreate_graves hitem hearly interaction prepared
  | finalize nowNs flow =>
    obtain ⟨record, hflow⟩ := Option.ne_none_iff_exists'.mp hok.2
    exact h.mem_finalize hflow hitem

@[simp] theorem step_clock : (s.step digest op).clock = op.nowMs := by
  cases op <;> rfl

variable {ops : List Op}

theorem sound_run (h : s.registry.Sound)
    (hok : Machine.Permitted (System.step digest) System.Allows s ops) :
    (ops.foldl (System.step digest) s).registry.Sound := by
  induction ops generalizing s with
  | nil => exact h
  | cons op ops ih => exact ih (sound_step h hok.1) hok.2

theorem clock_le_run (hok : Machine.Permitted (System.step digest) System.Allows s ops) :
    s.clock ≤ (ops.foldl (System.step digest) s).clock := by
  induction ops generalizing s with
  | nil => exact Nat.le_refl _
  | cons op ops ih =>
    have hrest := ih hok.2
    rw [step_clock] at hrest
    exact Nat.le_trans hok.1.1 hrest

/-- A tombstone is in the table as long as the run ends before its time. -/
theorem tombstone_stays_run (h : s.registry.Sound)
    (hok : Machine.Permitted (System.step digest) System.Allows s ops)
    (hitem : item ∈ s.registry.graves)
    (hearly : (ops.foldl (System.step digest) s).clock < item.expiryMs) :
    item ∈ (ops.foldl (System.step digest) s).registry.graves := by
  induction ops generalizing s with
  | nil => exact hitem
  | cons op ops ih =>
    have hclock := clock_le_run hok.2
    rw [step_clock] at hclock
    have hstep := tombstone_stays_step digest h hok.1 hitem
      (Nat.lt_of_le_of_lt hclock hearly)
    exact ih (sound_step h hok.1) hok.2 hstep hearly

theorem sized_step {ttlMs maxTombstones : Nat} (h : s.registry.Sized ttlMs maxTombstones) :
    (s.step digest op).registry.Sized ttlMs maxTombstones := by
  cases op with
  | finalize nowNs flow => exact finalize_sized h
  | create nowNs flow interaction prepared =>
    show (s.registry.flowCreate digest nowNs flow interaction prepared).2.Sized _ _
    rw [Registry.flowCreate]
    split
    · exact h
    split
    · exact h
    set placed : Registry δ :=
      { s.registry with heap := Function.update s.registry.heap flow (some ⟨interaction, false⟩) }
    have hflow : placed.heap flow = some ⟨interaction, false⟩ := Function.update_self _ _ _
    have hsized : (placed.register digest nowNs flow).2.Sized ttlMs maxTombstones := by
      obtain ⟨status, stats, heq, -⟩ | ⟨i, -, -, -, heq⟩ := register_cases digest nowNs hflow <;>
        rw [heq] <;> exact ⟨h.1, expire_length.trans h.2⟩
    simp only
    split
    · exact finalize_sized hsized
    · exact hsized

theorem sized_run {ttlMs maxTombstones : Nat} (h : s.registry.Sized ttlMs maxTombstones)
    (ops : List Op) :
    (ops.foldl (System.step digest) s).registry.Sized ttlMs maxTombstones := by
  induction ops generalizing s with
  | nil => exact h
  | cons op ops ih => exact ih (sized_step h)

theorem tombstone_names (interaction : Identity) (expiryMs : Nat) :
    (interaction.tombstone digest expiryMs).names digest interaction = true := by
  simp [Tombstone.names, Identity.tombstone]

/-- The reading of the clock is below the largest word, so a tombstone that may not live as
long as it should is one that no reading reaches. -/
theorem restNowMs_lt_addMs {nowNs retiredNs : UInt64} {ttlMs : Nat}
    (h : restNowMs nowNs - restNowMs retiredNs < ttlMs) :
    restNowMs nowNs < addMs (restNowMs retiredNs) ttlMs := by
  have hnow : restNowMs nowNs < wordMax := by
    have hword := nowNs.toNat_lt
    simp only [restNowMs, wordMax, wordSize]
    omega
  rw [addMs]
  split
  · exact hnow
  · omega

end Runs

/-- **Duplicate deliveries are suppressed.**  In every run of a client's registry the live
flows have different identities, there is room for their tombstones, a tombstone is found
for each of them, the counters are those of the tables, and `dcc_flow_create` refuses an
identity that lives or was retired less than the lifetime of a tombstone ago. -/
theorem duplicates_refused {δ : Type} [DecidableEq δ] (digest : Bytes → δ)
    (maxLiveQueues maxTombstones ttlMs : Nat) (client : Registry δ)
    (hinit : registryInit maxLiveQueues maxTombstones ttlMs = some client) (ops : List Op)
    (hok : Machine.Permitted (System.step digest) System.Allows ⟨client, 0⟩ ops) :
    let s := ops.foldl (System.step digest) ⟨client, 0⟩
    (∀ f g, some f ∈ s.registry.liveEntries → some g ∈ s.registry.liveEntries → f ≠ g →
      s.registry.identity f ≠ s.registry.identity g) ∧
    s.registry.liveEntries.countP Option.isSome + s.registry.tombstones.countP Option.isSome ≤
      maxTombstones ∧
    (∀ f, some f ∈ s.registry.liveEntries → none ∈ s.registry.tombstones) ∧
    s.registry.stats.interactionLiveQueues = s.registry.liveEntries.countP Option.isSome ∧
    s.registry.stats.interactionTombstones = s.registry.tombstones.countP Option.isSome ∧
    (∀ f interaction, some f ∈ s.registry.liveEntries → s.registry.identity f = some interaction →
      ∀ nowNs flow prepared, s.registry.heap flow = none →
        (s.registry.flowCreate digest nowNs flow interaction prepared).1 =
          if prepared = .ok then .state else prepared) ∧
    (∀ before after f interaction retiredNs, ops = before ++ .finalize retiredNs f :: after →
      some f ∈ (before.foldl (System.step digest) ⟨client, 0⟩).registry.liveEntries →
      (before.foldl (System.step digest) ⟨client, 0⟩).registry.identity f = some interaction →
      ∀ nowNs flow prepared, s.registry.heap flow = none → s.clock ≤ restNowMs nowNs →
        restNowMs nowNs - restNowMs retiredNs < ttlMs →
        (s.registry.flowCreate digest nowNs flow interaction prepared).1 =
          if prepared = .ok then .state else prepared) := by
  intro s
  have hsound : s.registry.Sound := sound_run (init_sound hinit) hok
  have hcount : ∀ {α : Type} (slots : List (Option α)),
      slots.countP Option.isSome = slots.reduceOption.length := by
    intro α slots
    rw [List.reduceOption_length_eq, List.countP_eq_length_filter]
  have hlive : ∀ f, some f ∈ s.registry.liveEntries ↔ f ∈ s.registry.live :=
    fun f => List.reduceOption_mem_iff.symm
  have hheap : ∀ f ∈ s.registry.live, s.registry.heap f ≠ none := by
    intro f hf
    obtain ⟨record, hrecord, -⟩ := (hsound.listed f).mp hf
    simp [hrecord]
  refine ⟨?_, ?_, ?_, ?_, ?_, ?_, ?_⟩
  · intro f g hf hg hne hid
    exact hne (hsound.distinct f g ((hlive f).mp hf) ((hlive g).mp hg) hid)
  · have hsized := (sized_run (init_sized hinit) ops : s.registry.Sized ttlMs maxTombstones).2
    rw [hcount, hcount, ← hsized]
    exact hsound.room
  · intro f hf
    exact hsound.free_of_live ((hlive f).mp hf)
  · rw [hcount]
    exact hsound.liveCounter
  · rw [hcount]
    exact hsound.graveCounter
  · intro f interaction hf hid nowNs flow prepared hfresh
    obtain ⟨record, hrecord, rfl⟩ := Option.map_eq_some_iff.mp hid
    exact flowCreate_of_known (hsound.valid f record hrecord) hfresh hheap
      (Or.inr ⟨f, (hlive f).mp hf, hid⟩) prepared
  · intro before after f interaction retiredNs hops hf hid nowNs flow prepared hfresh hclock hage
    subst hops
    obtain ⟨hbefore, hretire, hafter⟩ := Machine.permitted_append.mp hok
    set t := before.foldl (System.step digest) ⟨client, 0⟩
    have ht : t.registry.Sound := sound_run (init_sound hinit) hbefore
    have httl : t.registry.tombstoneTtlMs = ttlMs := (sized_run (init_sized hinit) before).1
    obtain ⟨record, hrecord, rfl⟩ := Option.map_eq_some_iff.mp hid
    obtain ⟨found, hfound, hreg⟩ := (ht.listed f).mp (List.reduceOption_mem_iff.mpr hf)
    obtain rfl : record = found := by simpa [hrecord] using hfound
    -- the tombstone is made, and every reading up to this delivery is before its time
    set item := record.interaction.tombstone digest (addMs (restNowMs retiredNs) ttlMs)
    have hitem : item ∈ (t.step digest (.finalize retiredNs f)).registry.graves := by
      refine (ht.finalize_graves hrecord hreg).mem_iff.mpr ?_
      rw [httl]
      exact List.mem_cons_self
    have hearly : restNowMs nowNs < item.expiryMs := restNowMs_lt_addMs hage
    have hs : s = after.foldl (System.step digest) (t.step digest (.finalize retiredNs f)) := by
      simp only [s, t, List.foldl_append, List.foldl_cons]
    have hstays : item ∈ s.registry.graves := by
      rw [hs] at hclock ⊢
      exact tombstone_stays_run (sound_step ht hretire) hafter hitem
        (Nat.lt_of_le_of_lt hclock hearly)
    refine flowCreate_of_known (ht.valid f record hrecord) hfresh hheap (Or.inl ⟨item, ?_, ?_⟩)
      prepared
    · rw [expire_graves]
      exact List.mem_filter.mpr ⟨hstays, decide_eq_true hearly⟩
    · exact tombstone_names record.interaction _

/-- A flow is created, retired and delivered again within the lifetime. -/
theorem duplicates_refused_again :
    let interaction : Identity := ⟨7, 9, [116]⟩
    let ops : List Op := [.create 0 1 interaction .ok, .finalize 1000000 1]
    ∃ client : Registry Bytes, registryInit 2 2 900000 = some client ∧
      Machine.Permitted (System.step id) System.Allows ⟨client, 0⟩ ops ∧
      ((ops.foldl (System.step id) ⟨client, 0⟩).registry.flowCreate id 2000000 1
        interaction .ok).1 = .state := by
  intro interaction ops
  have hok : Machine.Permitted (System.step id) System.Allows
      ⟨{ tombstoneTtlMs := 900000, heap := fun _ => none, liveEntries := [none, none],
         tombstones := [none, none], stats := ⟨0, 0, 0, 0, 0, 0, 0, 0⟩ }, 0⟩ ops :=
    ⟨⟨by decide, rfl⟩, ⟨by decide, by simp [System.step]; decide⟩, trivial⟩
  have hrun := duplicates_refused id 2 2 900000 _ rfl ops hok
  refine ⟨_, rfl, hok, ?_⟩
  exact hrun.2.2.2.2.2.2 [.create 0 1 interaction .ok] [] 1 interaction 1000000 rfl (by decide)
    rfl 2000000 1 .ok rfl (by decide) (by decide)

end Dcc.Flow
