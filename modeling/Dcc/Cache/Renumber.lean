import Mathlib.Data.List.Sort
import Dcc.Cache.EntityCache

/-!
# When the write counter of the cache is used up

At the last number of the counter `dcc_cache_next_sequence` numbers all entries
anew, and it walks the tables, their chains and the entries of a chain as they lie.
The new numbers rise along that walk, whatever the old ones were.

* `resequence_tables` — the number that each entry gets;
* `renumbers_iff` — age, distinctness and later evictions are what they were exactly
  when every walk already met its entries oldest first, and there is a number left.
-/

namespace Dcc.Cache

open Machine

variable {V F : Type*}

section Walk

/-- The entry at a place of the walk, with the number it gets there. -/
def Entry.numbered (sequence index : Nat) (e : Entry V) : Entry V :=
  { e with sequence := min (sequence + index + 1) wordMax }

/-- **The walk along a chain counts up, and stays at the last number.** -/
theorem resequenceChain_eq {sequence : Nat} (h : sequence ≤ wordMax) (chain : List (Entry V)) :
    resequenceChain sequence chain =
      (chain.mapIdx (Entry.numbered sequence), min (sequence + chain.length) wordMax) := by
  induction chain generalizing sequence with
  | nil => simp [resequenceChain, h]
  | cons e rest ih =>
    have hnext : (if sequence < wordMax then sequence + 1 else sequence) =
        min (sequence + 1) wordMax := by
      split <;> omega
    have hnumbered : Entry.numbered (V := V) (min (sequence + 1) wordMax) =
        fun i => Entry.numbered sequence (i + 1) := by
      funext i a
      simp only [Entry.numbered, Entry.mk.injEq, true_and, and_true]
      omega
    have hlast : min (min (sequence + 1) wordMax + rest.length) wordMax =
        min (sequence + (rest.length + 1)) wordMax := by
      omega
    rw [resequenceChain, hnext, ih (Nat.min_le_right _ _), hnumbered, hlast]
    simp [List.mapIdx_cons, Entry.numbered]

theorem map_pair_mapIdx (sequence : Nat) (entries : List (Entry V)) :
    (entries.mapIdx (Entry.numbered sequence)).map Entry.pair = entries.map Entry.pair := by
  refine List.ext_getElem? fun i => ?_
  rw [List.getElem?_map, List.getElem?_mapIdx, List.getElem?_map, Option.map_map]
  rfl

section

variable {sequence : Nat} (h : sequence ≤ wordMax)
include h

theorem resequenceRow_eq (row : List (List (Entry V))) :
    (resequenceRow sequence row).1.flatten = row.flatten.mapIdx (Entry.numbered sequence) ∧
      (resequenceRow sequence row).1.map (List.map Entry.pair) = row.map (List.map Entry.pair) ∧
      (resequenceRow sequence row).2 = min (sequence + row.flatten.length) wordMax := by
  induction row generalizing sequence with
  | nil => simp [resequenceRow, h]
  | cons chain rest ih =>
    obtain ⟨hflatten, hpairs, hlast⟩ :=
      ih (show min (sequence + chain.length) wordMax ≤ wordMax from Nat.min_le_right _ _)
    have hnumbered : Entry.numbered (V := V) (min (sequence + chain.length) wordMax) =
        fun i => Entry.numbered sequence (i + chain.length) := by
      funext i a
      simp only [Entry.numbered, Entry.mk.injEq, true_and, and_true]
      omega
    simp only [resequenceRow, resequenceChain_eq h]
    refine ⟨?_, ?_, ?_⟩
    · rw [List.flatten_cons, hflatten, List.flatten_cons, List.mapIdx_append, hnumbered]
    · have hchain : (chain.mapIdx (Entry.numbered sequence)).map Entry.pair =
          chain.map Entry.pair := map_pair_mapIdx sequence chain
      rw [List.map_cons, hpairs, hchain, List.map_cons]
    · rw [hlast, List.flatten_cons, List.length_append]
      omega

theorem resequence_entries (t : Table V) :
    (t.resequence sequence).1.entries = t.entries.mapIdx (Entry.numbered sequence) :=
  (resequenceRow_eq h t.buckets).1

theorem resequence_last (t : Table V) :
    (t.resequence sequence).2 = min (sequence + t.entries.length) wordMax :=
  (resequenceRow_eq h t.buckets).2.2

theorem resequence_pairs (t : Table V) :
    (t.resequence sequence).1.buckets.map (List.map Entry.pair) =
      t.buckets.map (List.map Entry.pair) :=
  (resequenceRow_eq h t.buckets).2.1

end

end Walk

section Tables

/-- The entries of some tables, in the order of the walk. -/
def EntityCache.walk (c : EntityCache V) (kinds : List Kind) : List (Entry V) :=
  kinds.flatMap fun kind => (c.tables kind).entries

/-- One round of the renumbering. -/
def EntityCache.resequenceTable (c : EntityCache V) (kind : Kind) : EntityCache V :=
  let (t, sequence) := (c.tables kind).resequence c.sequence
  { c with tables := Function.update c.tables kind t, sequence := sequence }

/-- The walk through some tables: where it ends, the numbers it gives, and what it leaves. -/
structure Walked (c c' : EntityCache V) (kinds : List Kind) : Prop where
  sequence : c'.sequence = min (c.sequence + (c.walk kinds).length) wordMax
  walk : c'.walk kinds = (c.walk kinds).mapIdx (Entry.numbered c.sequence)
  table : ∀ kind ∈ kinds, ∃ sequence, c'.tables kind = ((c.tables kind).resequence sequence).1 ∧
    sequence + (c.tables kind).entries.length ≤ c.sequence + (c.walk kinds).length ∧
    sequence ≤ wordMax
  other : ∀ kind, kind ∉ kinds → c'.tables kind = c.tables kind
  maxima : c'.maxima = c.maxima

theorem walked_foldl {kinds : List Kind} (hnodup : kinds.Nodup) (c : EntityCache V)
    (hsequence : c.sequence ≤ wordMax) :
    Walked c (kinds.foldl EntityCache.resequenceTable c) kinds := by
  induction kinds generalizing c with
  | nil =>
    exact ⟨by simp [EntityCache.walk, hsequence], rfl, by simp, fun _ _ => rfl, rfl⟩
  | cons kind rest ih =>
    obtain ⟨hfresh, hrest⟩ := List.nodup_cons.mp hnodup
    have hlast := resequence_last hsequence (c.tables kind)
    have hentries := resequence_entries hsequence (c.tables kind)
    have hsame : ∀ other, other ≠ kind → (c.resequenceTable kind).tables other = c.tables other :=
      fun other hne => Function.update_of_ne hne _ _
    have hself : (c.resequenceTable kind).tables kind =
        ((c.tables kind).resequence c.sequence).1 := Function.update_self _ _ _
    have hnext : (c.resequenceTable kind).sequence =
        min (c.sequence + (c.tables kind).entries.length) wordMax := hlast
    have hwalk : (c.resequenceTable kind).walk rest = c.walk rest := by
      refine List.flatMap_congr fun other hother => ?_
      rw [hsame other (fun heq => hfresh (heq ▸ hother))]
    have hlength : (c.walk (kind :: rest)).length =
        (c.tables kind).entries.length + (c.walk rest).length := by
      simp [EntityCache.walk]
    have h := ih hrest (c.resequenceTable kind) (hnext ▸ Nat.min_le_right _ _)
    refine ⟨?_, ?_, ?_, ?_, h.maxima⟩
    · rw [List.foldl_cons, h.sequence, hnext, hwalk, hlength]
      omega
    · have hnumbered : Entry.numbered (V := V) (c.resequenceTable kind).sequence =
          fun i => Entry.numbered c.sequence (i + (c.tables kind).entries.length) := by
        funext i a
        simp only [Entry.numbered, Entry.mk.injEq, true_and, and_true, hnext]
        omega
      have htail := h.walk
      rw [hwalk, hnumbered] at htail
      have hhead : (rest.foldl EntityCache.resequenceTable (c.resequenceTable kind)).tables kind =
          ((c.tables kind).resequence c.sequence).1 := (h.other kind hfresh).trans hself
      rw [List.foldl_cons, EntityCache.walk, List.flatMap_cons, hhead, hentries]
      exact (congrArg _ htail).trans List.mapIdx_append.symm
    · intro other hother
      rw [List.foldl_cons, hlength]
      rcases List.mem_cons.mp hother with rfl | hmem
      · exact ⟨c.sequence, (h.other other hfresh).trans hself, by omega, hsequence⟩
      · have hne : other ≠ kind := fun heq => hfresh (heq ▸ hmem)
        obtain ⟨sequence, htable, hle, hmax⟩ := h.table other hmem
        rw [hsame other hne] at htable hle
        rw [hwalk, hnext] at hle
        exact ⟨sequence, htable, by omega, hmax⟩
    · intro other hother
      have hne : other ≠ kind := fun heq => hother (heq ▸ List.mem_cons_self)
      have hmem : other ∉ rest := fun hmem => hother (List.mem_cons_of_mem _ hmem)
      rw [List.foldl_cons, h.other other hmem, hsame other hne]

theorem Kind.mem_all (kind : Kind) : kind ∈ Kind.all := by
  cases kind <;> decide

/-- The renumbering of all tables. -/
theorem resequence_tables (c : EntityCache V) :
    Walked { c with sequence := 0 } c.resequence Kind.all :=
  walked_foldl (by decide) _ (Nat.zero_le _)

end Tables

/-- The walk meets the entries of a table oldest first. -/
def Table.Aged (t : Table V) : Prop := t.entries.Pairwise fun a b => a.sequence < b.sequence

instance (t : Table V) : Decidable t.Aged := by
  unfold Table.Aged
  infer_instance

/-- What the renumbering of a cache should leave as it was: the order of two entries of a table
by age, a number for each entry below the one handed out next, and, in all later calls, tables
that stand for the maps whose oldest writes leave first. -/
structure Renumbers (view : Kind → V → V → F → V) (c : EntityCache V) : Prop where
  order : ∀ kind (i j : Nat) (a b a' b' : Entry V),
    (c.tables kind).entries[i]? = some a → (c.tables kind).entries[j]? = some b →
    (c.resequence.tables kind).entries[i]? = some a' →
    (c.resequence.tables kind).entries[j]? = some b' →
    (a.sequence < b.sequence ↔ a'.sequence < b'.sequence)
  distinct : ((c.resequence.walk Kind.all).map Entry.sequence).Nodup
  below : ∀ e ∈ c.resequence.walk Kind.all, e.sequence < c.nextSequence.sequence
  evictions : ∀ maps : Maps V, Mirrors ⟨c, maps⟩ → ∀ calls : List (Call V F),
    Permitted (Observed.next view) Unsaturated ⟨c.resequence, maps⟩ calls →
    Mirrors (calls.foldl (Observed.next view) ⟨c.resequence, maps⟩)

section Numbers

variable {c : EntityCache V}

theorem Entry.sequence_numbered {sequence index : Nat} (h : sequence + index < wordMax)
    (e : Entry V) : (e.numbered sequence index).sequence = sequence + index + 1 :=
  Nat.min_eq_left h

theorem resequence_getElem? (h : (c.walk Kind.all).length < wordMax) (kind : Kind) :
    ∃ sequence, ∀ (i : Nat) (a : Entry V), (c.tables kind).entries[i]? = some a →
      (c.resequence.tables kind).entries[i]? = some { a with sequence := sequence + i + 1 } := by
  obtain ⟨sequence, htable, hle, hmax⟩ := (resequence_tables c).table kind kind.mem_all
  refine ⟨sequence, fun i a ha => ?_⟩
  have hlt : i < (c.tables kind).entries.length := (List.getElem?_eq_some_iff.mp ha).1
  have hbound : sequence + i < wordMax := by
    have : sequence + (c.tables kind).entries.length ≤ 0 + (c.walk Kind.all).length := hle
    omega
  have hentries : (c.resequence.tables kind).entries =
      (c.tables kind).entries.mapIdx (Entry.numbered sequence) :=
    (congrArg Table.entries htable).trans (resequence_entries hmax _)
  rw [hentries, List.getElem?_mapIdx, ha, Option.map_some, Entry.numbered, Nat.min_eq_left hbound]

theorem resequence_numbers (h : (c.walk Kind.all).length < wordMax) :
    (c.resequence.walk Kind.all).map Entry.sequence = List.range' 1 (c.walk Kind.all).length := by
  have hwalk : c.resequence.walk Kind.all =
      (c.walk Kind.all).mapIdx (Entry.numbered 0) := (resequence_tables c).walk
  refine List.ext_getElem? fun i => ?_
  rw [hwalk, List.getElem?_map, List.getElem?_mapIdx]
  by_cases hi : i < (c.walk Kind.all).length
  · have hnumber : ∀ e : Entry V, (e.numbered 0 i).sequence = 0 + i + 1 :=
      Entry.sequence_numbered (by omega)
    simp [hi, hnumber, Nat.add_comm]
  · simp [hi]

theorem nextSequence_resequence (hfull : c.sequence = wordMax)
    (h : (c.walk Kind.all).length < wordMax) :
    c.nextSequence.sequence = (c.walk Kind.all).length + 1 := by
  have hsequence : c.resequence.sequence = (c.walk Kind.all).length := by
    have hlast : c.resequence.sequence = min (0 + (c.walk Kind.all).length) wordMax :=
      (resequence_tables c).sequence
    omega
  have hadd : wordAdd c.resequence.sequence 1 = c.resequence.sequence + 1 := by
    refine wordAdd_of_lt ?_
    simp only [wordMax, wordSize] at h ⊢
    omega
  rw [hsequence] at hadd
  simp [EntityCache.nextSequence, hfull, hsequence, hadd]

theorem nextSequence_wrapped (hfull : c.sequence = wordMax)
    (h : wordMax ≤ (c.walk Kind.all).length) : c.nextSequence.sequence = 0 := by
  have hsequence : c.resequence.sequence = wordMax := by
    have hlast : c.resequence.sequence = min (0 + (c.walk Kind.all).length) wordMax :=
      (resequence_tables c).sequence
    omega
  simp [EntityCache.nextSequence, hfull, hsequence, wordAdd, wordMax, wordSize]

end Numbers

section Age

variable {c : EntityCache V} {t : Table V} {m : WriteOrder (UInt64 × UInt64) V} {bound : Nat}

theorem placed_resequence {sequence : Nat} (h : sequence ≤ wordMax)
    (hplaced : Buckets.Placed (Entry.slot t.buckets.length) t.buckets) :
    Buckets.Placed (Entry.slot (t.resequence sequence).1.buckets.length)
      (t.resequence sequence).1.buckets := by
  have hpairs := resequence_pairs h t
  have hlength : (t.resequence sequence).1.buckets.length = t.buckets.length := by
    simpa using congrArg List.length hpairs
  intro i chain hchain e he
  have hold : (t.buckets.map (List.map Entry.pair))[i]? = some (chain.map Entry.pair) := by
    rw [← hpairs, List.getElem?_map, hchain, Option.map_some]
  rw [List.getElem?_map] at hold
  obtain ⟨before, hbefore, hmap⟩ := Option.map_eq_some_iff.mp hold
  have hmem : e.pair ∈ before.map Entry.pair := hmap ▸ List.mem_map_of_mem he
  obtain ⟨a, ha, hpair⟩ := List.mem_map.mp hmem
  have hkey : a.key = e.key := congrArg Prod.fst hpair
  have hslot : e.slot t.buckets.length = a.slot t.buckets.length := by
    rw [Entry.slot, Entry.slot, show a.major = e.major from congrArg Prod.fst hkey,
      show a.minor = e.minor from congrArg Prod.snd hkey]
  rw [hlength, hslot]
  exact hplaced i before hbefore a ha

theorem Refines.resequence (h : Refines t m bound) (haged : t.Aged) {sequence bound' : Nat}
    (hle : sequence + t.entries.length ≤ bound') (hmax : sequence + t.entries.length ≤ wordMax) :
    Refines (t.resequence sequence).1 m bound' := by
  have hsequence : sequence ≤ wordMax := by omega
  have hentries := resequence_entries hsequence t
  obtain ⟨l, hperm, hsorted, hwrites⟩ := h.ordered
  -- both lists hold the same entries in the order of the old numbers
  have hsame : t.entries = l := hperm.eq_of_pairwise
    (fun a b _ _ hab hba => absurd hab (Nat.lt_asymm hba)) haged hsorted
  refine ⟨placed_resequence hsequence h.placed, ?_, ?_, ?_⟩
  · rw [hentries, List.length_mapIdx]
    exact h.counted
  · refine ⟨(t.resequence sequence).1.entries, .refl _, ?_, ?_⟩
    · rw [hentries, List.pairwise_iff_getElem]
      intro i j hi hj hij
      simp only [List.length_mapIdx] at hi hj
      rw [List.getElem_mapIdx, List.getElem_mapIdx, Entry.sequence_numbered (by omega),
        Entry.sequence_numbered (by omega)]
      omega
    · rw [hentries, map_pair_mapIdx, hsame, hwrites]
  · intro e he
    rw [hentries] at he
    obtain ⟨i, hi, rfl⟩ := List.mem_mapIdx.mp he
    rw [Entry.sequence_numbered (by omega)]
    omega

theorem Mirrors.resequence {maps : Maps V} (h : Mirrors ⟨c, maps⟩)
    (haged : ∀ kind, (c.tables kind).Aged) (hroom : (c.walk Kind.all).length < wordMax) :
    Mirrors ⟨c.resequence, maps⟩ := by
  have hwalked := resequence_tables c
  have hlast : c.resequence.sequence = min (0 + (c.walk Kind.all).length) wordMax :=
    hwalked.sequence
  refine ⟨fun kind => ?_, fun kind hmax => ?_⟩
  · obtain ⟨sequence, htable, hle, -⟩ := hwalked.table kind kind.mem_all
    have hbound : sequence + (c.tables kind).entries.length ≤ 0 + (c.walk Kind.all).length := hle
    have hrefines : Refines (c.tables kind) (maps kind) c.sequence := h.refines kind
    have hnew : Refines ((c.tables kind).resequence sequence).1 (maps kind)
        c.resequence.sequence := hrefines.resequence (haged kind) (by omega) (by omega)
    rwa [← show c.resequence.tables kind = _ from htable] at hnew
  · have hmaxima : c.resequence.maxima = c.maxima := hwalked.maxima
    simp only [hmaxima] at hmax ⊢
    exact h.limited kind hmax

end Age

/-- **The renumbering keeps age exactly where nothing had to move.**  At the last number of the
counter it keeps the order of the entries of each table, gives each entry a number of its own
below the next one, and leaves later evictions as they would be, if and only if every walk
through a table met the entries oldest first and the entries do not use up all numbers. -/
theorem renumbers_iff (view : Kind → V → V → F → V) (c : EntityCache V)
    (hfull : c.sequence = wordMax) :
    Renumbers view c ↔ (∀ kind, (c.tables kind).Aged) ∧ (c.walk Kind.all).length < wordMax := by
  constructor
  · intro h
    have hroom : (c.walk Kind.all).length < wordMax := by
      by_contra hfew
      have hwalk : c.resequence.walk Kind.all = (c.walk Kind.all).mapIdx (Entry.numbered 0) :=
        (resequence_tables c).walk
      have hpos : 0 < (c.resequence.walk Kind.all).length := by
        rw [hwalk, List.length_mapIdx]
        exact Nat.lt_of_lt_of_le (by decide) (Nat.not_lt.mp hfew)
      have hbelow := h.below _ (List.getElem_mem hpos)
      rw [nextSequence_wrapped hfull (Nat.not_lt.mp hfew)] at hbelow
      exact absurd hbelow (Nat.not_lt_zero _)
    refine ⟨fun kind => ?_, hroom⟩
    obtain ⟨sequence, hnumbers⟩ := resequence_getElem? hroom kind
    refine List.pairwise_iff_getElem.mpr fun i j hi hj hij => ?_
    have ha := List.getElem?_eq_getElem hi
    have hb := List.getElem?_eq_getElem hj
    refine (h.order kind i j _ _ _ _ ha hb (hnumbers i _ ha) (hnumbers j _ hb)).mpr ?_
    simp only
    omega
  · intro h
    obtain ⟨haged, hroom⟩ := h
    refine ⟨?_, ?_, ?_, ?_⟩
    · intro kind i j a b a' b' ha hb ha' hb'
      obtain ⟨sequence, hnumbers⟩ := resequence_getElem? hroom kind
      obtain rfl := Option.some.inj ((hnumbers i a ha).symm.trans ha')
      obtain rfl := Option.some.inj ((hnumbers j b hb).symm.trans hb')
      obtain ⟨hi, rfl⟩ := List.getElem?_eq_some_iff.mp ha
      obtain ⟨hj, rfl⟩ := List.getElem?_eq_some_iff.mp hb
      have hpairwise := List.pairwise_iff_getElem.mp (haged kind)
      simp only
      rcases Nat.lt_trichotomy i j with hlt | heq | hgt
      · have := hpairwise i j hi hj hlt
        omega
      · subst heq
        simp
      · have := hpairwise j i hj hi hgt
        omega
    · rw [resequence_numbers hroom]
      exact List.nodup_range'
    · intro e he
      have hmem : e.sequence ∈ (c.resequence.walk Kind.all).map Entry.sequence :=
        List.mem_map_of_mem he
      rw [resequence_numbers hroom, List.mem_range'_1] at hmem
      rw [nextSequence_resequence hfull hroom]
      omega
    · intro maps hmirrors calls hpermitted
      have hreach := Reach.start.run hpermitted
      exact hreach.invariant (hmirrors.resequence haged hroom) fun s call hs hok => hs.next hok

/-- Two users in their chains, the first written before the second. -/
def twoUsers (first second : UInt64) (sequence : Nat) : Table Nat where
  buckets := ((List.replicate initialBuckets []).set (bucketIndex initialBuckets first 0)
    [⟨first, 0, 1, 10⟩]).set (bucketIndex initialBuckets second 0) [⟨second, 0, sequence, 20⟩]
  size := 2

/-- A cache without limits that holds two users. -/
def cacheOfUsers (first second : UInt64) (sequence : Nat) : EntityCache Nat where
  enabled := true
  tables := Function.update (fun _ => Table.init) .users (twoUsers first second sequence)
  maxima := fun _ => 0
  sequence := sequence

theorem renumbers_iff_aged : Renumbers sumView (cacheOfUsers 1 2 wordMax) := by
  refine (renumbers_iff sumView (cacheOfUsers 1 2 wordMax) rfl).mpr ⟨?_, ?_⟩
  · intro kind
    cases kind <;> decide +kernel
  · decide +kernel

theorem store_of_put {c : EntityCache V} (hlt : c.sequence < wordMax) {kind : Kind}
    (key : UInt64 × UInt64) {value : V} {memory : Memory} {t : Table V} {status : Status}
    (hput : (c.tables kind).put key.1 key.2 value (c.sequence + 1) (c.maxima kind) memory =
      (t, status)) :
    c.store kind key value memory =
      ({ c with tables := Function.update c.tables kind t, sequence := c.sequence + 1 },
        status) := by
  rw [EntityCache.store, nextSequence_of_lt hlt]
  simp only [hput]

section Second

variable {first second : UInt64} {sequence : Nat}

theorem put_twoUsers :
    (twoUsers first second sequence).put second 0 20 (sequence + 1) 0 ⟨true, true, true⟩ =
      (twoUsers first second (sequence + 1), .ok) := by
  have hlength : (twoUsers first second sequence).buckets.length = initialBuckets := by
    simp [twoUsers]
  have hsize : (twoUsers first second sequence).size = 2 := rfl
  have hindex : bucketIndex initialBuckets second 0 < initialBuckets := Nat.mod_lt _ (by decide)
  have hreserve : (twoUsers first second sequence).reserveForInsert ⟨true, true, true⟩ =
      (twoUsers first second sequence, .ok) := by
    simp [Table.reserveForInsert, hlength, hsize, initialBuckets, wordMax, wordSize]
  rw [Table.put, hreserve]
  simp only [hlength]
  simp [twoUsers, Table.trim, Entry.holds, Buckets.modifyFirst, hindex]

theorem put_second (hlt : sequence < wordMax) (hsecond : second ≠ 0) :
    (cacheOfUsers first second sequence).put .users second 0 20 ⟨true, true, true⟩ =
      (cacheOfUsers first second (sequence + 1), .ok) := by
  have hkey : Kind.key .users second 0 = some (second, 0) := by simp [Kind.key, hsecond]
  have htable : (cacheOfUsers first second sequence).tables .users =
      twoUsers first second sequence := by
    simp [cacheOfUsers]
  have hmaxima : (cacheOfUsers first second sequence).maxima .users = 0 := rfl
  have hsequence : (cacheOfUsers first second sequence).sequence = sequence := rfl
  have henabled : (cacheOfUsers first second sequence).enabled = true := rfl
  have hput : ((cacheOfUsers first second sequence).tables .users).put second 0 20
      ((cacheOfUsers first second sequence).sequence + 1)
      ((cacheOfUsers first second sequence).maxima .users) ⟨true, true, true⟩ =
        (twoUsers first second (sequence + 1), .ok) := by
    rw [htable, hmaxima, hsequence]
    exact put_twoUsers
  have hstore : (cacheOfUsers first second sequence).store .users (second, 0) 20
      ⟨true, true, true⟩ = (cacheOfUsers first second (sequence + 1), .ok) := by
    rw [store_of_put (show (cacheOfUsers first second sequence).sequence < wordMax from hlt)
      (second, 0) hput]
    simp only [cacheOfUsers, Function.update_idem]
  simp [EntityCache.put, hkey, henabled, hstore]

end Second

/-- The first user is written once, the second one from then on. -/
def userPut (user : UInt64) (value : Nat) : Call Nat Unit :=
  .put .users user 0 value ⟨true, true, true⟩

theorem cache_ext {c c' : EntityCache V} (henabled : c.enabled = c'.enabled)
    (htables : ∀ kind, c.tables kind = c'.tables kind)
    (hmaxima : ∀ kind, c.maxima kind = c'.maxima kind) (hsequence : c.sequence = c'.sequence) :
    c = c' := by
  cases c
  cases c'
  obtain rfl := funext htables
  obtain rfl := funext hmaxima
  simp only at henabled hsequence
  rw [henabled, hsequence]

theorem reach_counted (sequence : Nat) (hle : sequence + 2 ≤ wordMax) :
    ∃ o : Observed Nat,
      Reach (Observed.next sumView) Unsaturated (Observed.init true fun _ => 0) o ∧
      o.cache = cacheOfUsers 1 5 (sequence + 2) := by
  induction sequence with
  | zero =>
    have hlt : ∀ n : Nat, n < 10 → n < wordMax := fun n hn => Nat.lt_trans hn (by decide)
    have hpermitted : Permitted (Observed.next sumView) Unsaturated
        (Observed.init true fun _ => 0) [userPut 1 10, userPut 5 20] :=
      ⟨hlt _ (by decide +kernel), hlt _ (by decide +kernel), trivial⟩
    refine ⟨_, Reach.start.run hpermitted, cache_ext (by decide +kernel) ?_ ?_
      (by decide +kernel)⟩
    · intro kind
      cases kind <;> decide +kernel
    · intro kind
      cases kind <;> decide +kernel
  | succ n ih =>
    obtain ⟨o, hreach, hcache⟩ := ih (by omega)
    have hlt : o.cache.sequence < wordMax := by
      rw [hcache]
      exact Nat.lt_of_lt_of_le (Nat.lt_succ_self _) hle
    have hput := @put_second 1 5 (n + 2) hle (by decide)
    refine ⟨o.next sumView (userPut 5 20), hreach.step hlt, ?_⟩
    simp [Observed.next, EntityCache.call, userPut, hcache, hput]

/-- The walk meets the user written last before the one written first. -/
theorem renumbered_out_of_order :
    ∃ o : Observed Nat,
      Reach (Observed.next sumView) Unsaturated (Observed.init true fun _ => 0) o ∧
      o.cache.sequence = wordMax ∧ ¬ Renumbers sumView o.cache := by
  obtain ⟨o, hreach, hcache⟩ := reach_counted (wordMax - 2) (by decide)
  have hfull : wordMax - 2 + 2 = wordMax := by decide
  rw [hfull] at hcache
  refine ⟨o, hreach, ?_, fun h => ?_⟩
  · rw [hcache]
    rfl
  · rw [hcache] at h
    have horder := h.order .users 0 1 ⟨5, 0, wordMax, 20⟩ ⟨1, 0, 1, 10⟩ ⟨5, 0, 1, 20⟩ ⟨1, 0, 2, 10⟩
      (by decide +kernel) (by decide +kernel) (by decide +kernel) (by decide +kernel)
    exact absurd (horder.mpr (by decide)) (by decide)

end Dcc.Cache
