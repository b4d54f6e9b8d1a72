import Dcc.Basic
import Dcc.Lib.Buckets
import Dcc.Lib.WriteOrder

/-!
# The hash table of the entity cache

Each kind of cached entity has a table: a row of chains, the chain of an entry
selected by a hash of its two identifiers.  A write takes the entry's chain, or
pushes a new entry; past a load of two entries a chain the row doubles; past a
limit the entry with the smallest write sequence is taken out.

* `Refines` — the table stands for a finite map in the order of its writes;
* `Refines.get` — a lookup reads the map;
* `Refines.put` — a write that succeeds is a write of the map under the limit,
  and one that fails leaves the map;
* `Refines.remove`, `Refines.trim`, `Refines.clear` — likewise.
-/

namespace Dcc.Cache

open Buckets

/-- `dcc_cache_entry_t`; its link is its place in a chain. -/
structure Entry (V : Type*) where
  major : UInt64
  minor : UInt64
  sequence : Nat
  value : V
  deriving DecidableEq, Repr

/-- `dcc_cache_table_t`.  The row is empty until the first insertion; the length
of the row is `bucket_count`. -/
structure Table (V : Type*) where
  buckets : List (List (Entry V))
  size : Nat
  deriving DecidableEq, Repr

variable {V : Type*}

/-- The two identifiers of an entry. -/
def Entry.key (e : Entry V) : UInt64 × UInt64 := (e.major, e.minor)

/-- What an entry stands for. -/
def Entry.pair (e : Entry V) : (UInt64 × UInt64) × V := (e.key, e.value)

/-- The comparison in every walk along a chain. -/
def Entry.holds (major minor : UInt64) (e : Entry V) : Bool :=
  e.major == major && e.minor == minor

/-- `DCC_CACHE_INITIAL_BUCKETS`. -/
def initialBuckets : Nat := 256

/-- `sizeof(*table->buckets)`. -/
def pointerSize : Nat := 8

/-- `dcc_cache_hash_pair`. -/
def hashPair (major minor : UInt64) : UInt64 :=
  let x : UInt64 := major + 0x9E3779B97F4A7C15
  let x : UInt64 := x ^^^ (minor + 0xBF58476D1CE4E5B9 + (x <<< (6 : UInt64)) + (x >>> (2 : UInt64)))
  let x : UInt64 := x ^^^ (x >>> 30)
  let x : UInt64 := x * 0xBF58476D1CE4E5B9
  let x : UInt64 := x ^^^ (x >>> 27)
  let x : UInt64 := x * 0x94D049BB133111EB
  x ^^^ (x >>> 31)

/-- The chain that a row of `count` chains has for a key. -/
def bucketIndex (count : Nat) (major minor : UInt64) : Nat :=
  (hashPair major minor).toNat % count

/-- The chain of an entry. -/
def Entry.slot (count : Nat) (e : Entry V) : Nat := bucketIndex count e.major e.minor

/-- `dcc_cache_init`: a table before its first insertion. -/
def Table.init : Table V where
  buckets := []
  size := 0

/-- All entries, in the order a scan of the row meets them. -/
def Table.entries (t : Table V) : List (Entry V) := t.buckets.flatten

/-- What the allocator comes back with during one write: the copy of the entity,
a new row of chains, a new entry. -/
structure Memory where
  clone : Bool
  buckets : Bool
  entry : Bool

/-- `dcc_cache_table_resize`. -/
def Table.resize (t : Table V) (count : Nat) (memory : Memory) : Table V × Status :=
  if count = 0 ∨ count > wordMax / pointerSize then (t, .nomem)
  else if memory.buckets = false then (t, .nomem)
  else ({ t with buckets := distribute (Entry.slot count) count t.entries }, .ok)

/-- `dcc_cache_table_reserve_for_insert`. -/
def Table.reserveForInsert (t : Table V) (memory : Memory) : Table V × Status :=
  if t.buckets.length = 0 then t.resize initialBuckets memory
  else if t.buckets.length > wordMax / 2 then (t, .nomem)
  else if t.size ≤ t.buckets.length * 2 then (t, .ok)
  else t.resize (t.buckets.length * 2) memory

/-- The scan of `dcc_cache_table_evict_oldest`: a later entry replaces the best
one only with a smaller sequence. -/
def scanOldest : Option (Entry V) → List (Entry V) → Option (Entry V)
  | best, [] => best
  | none, e :: rest => scanOldest (some e) rest
  | some best, e :: rest =>
    if e.sequence < best.sequence then scanOldest (some e) rest else scanOldest (some best) rest

/-- `dcc_cache_table_evict_oldest`. -/
def Table.evictOldest (t : Table V) : Option (Table V) :=
  if t.buckets.length = 0 ∨ t.size = 0 then none
  else
    match scanOldest none t.entries with
    | none => none
    | some oldest =>
      some
        { buckets := eraseFirst (fun e => e.sequence == oldest.sequence) t.buckets
          size := t.size - 1 }

/-- The loop of `dcc_cache_table_trim`; every round takes one from the size. -/
def Table.trimLoop (max : Nat) : Nat → Table V → Table V
  | 0, t => t
  | fuel + 1, t =>
    if t.size > max then
      match t.evictOldest with
      | none => t
      | some t' => trimLoop max fuel t'
    else t

/-- `dcc_cache_table_trim`. -/
def Table.trim (t : Table V) (max : Nat) : Table V :=
  if max = 0 then t else t.trimLoop max t.size

/-- `dcc_cache_table_put`. -/
def Table.put (t : Table V) (major minor : UInt64) (value : V) (sequence max : Nat)
    (memory : Memory) : Table V × Status :=
  match t.reserveForInsert memory with
  | (t, .ok) =>
    let i := bucketIndex t.buckets.length major minor
    let chain := t.buckets.getD i []
    if chain.any (Entry.holds major minor) then
      let update : Entry V → Entry V := fun e => { e with value := value, sequence := sequence }
      let buckets := t.buckets.set i (modifyFirst (Entry.holds major minor) update chain)
      (({ t with buckets := buckets }).trim max, .ok)
    else if memory.entry = false then (t, .nomem)
    else
      let entry : Entry V := ⟨major, minor, sequence, value⟩
      let t' : Table V := { buckets := pushAt t.buckets i entry, size := t.size + 1 }
      (t'.trim max, .ok)
  | (t, status) => (t, status)

/-- `dcc_cache_table_get`. -/
def Table.get (t : Table V) (major minor : UInt64) : Option V :=
  if t.buckets.length = 0 then none
  else
    let chain := t.buckets.getD (bucketIndex t.buckets.length major minor) []
    (chain.find? (Entry.holds major minor)).map Entry.value

/-- `dcc_cache_table_remove`. -/
def Table.remove (t : Table V) (major minor : UInt64) : Table V × Bool :=
  if t.buckets.length = 0 then (t, false)
  else
    let i := bucketIndex t.buckets.length major minor
    let chain := t.buckets.getD i []
    if chain.any (Entry.holds major minor) then
      ({ buckets := t.buckets.set i (chain.eraseP (Entry.holds major minor))
         size := t.size - 1 }, true)
    else (t, false)

/-- `dcc_cache_table_clear`: the row stays. -/
def Table.clear (t : Table V) : Table V :=
  if t.buckets.length = 0 then t
  else { buckets := t.buckets.map (fun _ => []), size := 0 }

/-- `dcc_cache_table_resequence`: new numbers in the order of the scan. -/
def resequenceChain : Nat → List (Entry V) → List (Entry V) × Nat
  | sequence, [] => ([], sequence)
  | sequence, e :: rest =>
    let sequence := if sequence < wordMax then sequence + 1 else sequence
    let (rest, last) := resequenceChain sequence rest
    ({ e with sequence := sequence } :: rest, last)

/-- `dcc_cache_table_resequence`, over the row. -/
def resequenceRow : Nat → List (List (Entry V)) → List (List (Entry V)) × Nat
  | sequence, [] => ([], sequence)
  | sequence, chain :: rest =>
    let (chain, sequence) := resequenceChain sequence chain
    let (rest, last) := resequenceRow sequence rest
    (chain :: rest, last)

/-- `dcc_cache_table_resequence`. -/
def Table.resequence (t : Table V) (sequence : Nat) : Table V × Nat :=
  let (buckets, last) := resequenceRow sequence t.buckets
  ({ t with buckets := buckets }, last)

/-! ## A table and the map it stands for -/

/-- The table stands for a finite map: every entry is in the chain of its key,
the size counts the entries, and the entries in the order of their sequences are
the writes of the map.  No sequence is above `bound`. -/
structure Refines (t : Table V) (m : WriteOrder (UInt64 × UInt64) V) (bound : Nat) : Prop where
  placed : Placed (Entry.slot t.buckets.length) t.buckets
  counted : t.size = t.entries.length
  ordered : ∃ l : List (Entry V), t.entries.Perm l ∧
    l.Pairwise (fun a b => a.sequence < b.sequence) ∧ l.map Entry.pair = m.writes
  bounded : ∀ e ∈ t.entries, e.sequence ≤ bound

section Lookup

variable {t : Table V} {m : WriteOrder (UInt64 × UInt64) V} {bound : Nat} {major minor : UInt64}

theorem Entry.holds_iff {e : Entry V} : e.holds major minor = true ↔ e.key = (major, minor) := by
  simp [Entry.holds, Entry.key]

theorem Refines.mem_writes (h : Refines t m bound) {pair : (UInt64 × UInt64) × V} :
    pair ∈ m.writes ↔ ∃ e ∈ t.entries, e.pair = pair := by
  obtain ⟨l, hperm, -, hwrites⟩ := h.ordered
  rw [← hwrites, List.mem_map]
  simp only [hperm.mem_iff]

theorem Refines.keys_nodup (h : Refines t m bound) : (t.entries.map Entry.key).Nodup := by
  obtain ⟨l, hperm, -, hwrites⟩ := h.ordered
  have hkeys : l.map Entry.key = m.writes.map Prod.fst := by
    rw [← hwrites, List.map_map]
    rfl
  rw [(hperm.map Entry.key).nodup_iff, hkeys]
  exact m.distinct

theorem Refines.pairwise_holds (h : Refines t m bound) (major minor : UInt64) :
    t.entries.Pairwise (fun a b => a.holds major minor → b.holds major minor → False) := by
  refine (List.pairwise_map.mp h.keys_nodup).imp ?_
  intro a b hne ha hb
  exact hne ((Entry.holds_iff.mp ha).trans (Entry.holds_iff.mp hb).symm)

theorem Refines.mem_chain (h : Refines t m bound) {e : Entry V} (he : e ∈ t.entries)
    (hkey : e.holds major minor = true) :
    e ∈ t.buckets.getD (bucketIndex t.buckets.length major minor) [] := by
  obtain ⟨chain, hchain, hmem⟩ := h.placed.mem_chain he
  have hslot : e.slot t.buckets.length = bucketIndex t.buckets.length major minor := by
    have hpair := Entry.holds_iff.mp hkey
    rw [Entry.slot, show e.major = major from congrArg Prod.fst hpair,
      show e.minor = minor from congrArg Prod.snd hpair]
  rw [hslot] at hchain
  simpa [List.getD_eq_getElem?_getD, hchain] using hmem

theorem mem_entries_of_chain {i : Nat} {e : Entry V} (he : e ∈ t.buckets.getD i []) :
    e ∈ t.entries := by
  cases hchain : t.buckets[i]? with
  | none => simp [List.getD_eq_getElem?_getD, hchain] at he
  | some chain =>
    have hmem : e ∈ chain := by simpa [List.getD_eq_getElem?_getD, hchain] using he
    exact List.mem_flatten.mpr ⟨chain, List.mem_of_getElem? hchain, hmem⟩

/-- **A lookup reads the map.** -/
theorem Refines.get (h : Refines t m bound) (major minor : UInt64) :
    t.get major minor = m.lookup (major, minor) := by
  refine Option.ext ?_
  intro value
  rw [WriteOrder.lookup_eq_some_iff, h.mem_writes]
  constructor
  · intro hget
    unfold Table.get at hget
    split at hget
    · simp at hget
    · obtain ⟨e, hfind, rfl⟩ := Option.map_eq_some_iff.mp hget
      have hkey := Entry.holds_iff.mp (List.find?_some hfind)
      refine ⟨e, mem_entries_of_chain (List.mem_of_find?_eq_some hfind), ?_⟩
      rw [Entry.pair, hkey]
  · rintro ⟨e, he, hpair⟩
    obtain ⟨hkey, rfl⟩ := Prod.mk.inj hpair
    have hholds := Entry.holds_iff.mpr hkey
    have hmem := h.mem_chain he hholds
    have hrow : t.buckets.length ≠ 0 := by
      intro hzero
      rw [List.eq_nil_of_length_eq_zero hzero] at hmem
      simp at hmem
    unfold Table.get
    rw [if_neg hrow]
    simp only
    cases hfind : (t.buckets.getD (bucketIndex t.buckets.length major minor) []).find?
        (Entry.holds major minor) with
    | none => exact absurd hholds (List.find?_eq_none.mp hfind e hmem)
    | some other =>
      have hother := mem_entries_of_chain (List.mem_of_find?_eq_some hfind)
      have hsame : other = e := by
        refine List.inj_on_of_nodup_map h.keys_nodup hother he ?_
        rw [Entry.holds_iff.mp (List.find?_some hfind), hkey]
      rw [Option.map_some, hsame]

end Lookup

/-! ## One lemma for each operation -/

section Operations

variable {t t' : Table V} {m : WriteOrder (UInt64 × UInt64) V} {bound : Nat}
  {major minor : UInt64}

theorem Refines.init (bound : Nat) : Refines (Table.init : Table V) WriteOrder.empty bound where
  placed := by
    intro i chain hi
    simp [Table.init] at hi
  counted := rfl
  ordered := ⟨[], List.Perm.nil, List.Pairwise.nil, rfl⟩
  bounded := by
    intro e he
    simp [Table.init, Table.entries] at he

theorem Refines.mono (h : Refines t m bound) {bound' : Nat} (hle : bound ≤ bound') :
    Refines t m bound' where
  placed := h.placed
  counted := h.counted
  ordered := h.ordered
  bounded := fun e he => Nat.le_trans (h.bounded e he) hle

theorem slot_lt {count : Nat} (hpos : 0 < count) (e : Entry V) : e.slot count < count :=
  Nat.mod_lt _ hpos

theorem Refines.resize (h : Refines t m bound) (count : Nat) (memory : Memory) :
    Refines (t.resize count memory).1 m bound := by
  unfold Table.resize
  split
  · exact h
  · next hcount =>
    split
    · exact h
    · have hpos : 0 < count := by omega
      obtain ⟨hlength, hplaced, hperm⟩ := distribute_spec (slot_lt hpos) t.entries
      obtain ⟨l, hl, hsorted, hwrites⟩ := h.ordered
      exact
        { placed := by simpa [hlength] using hplaced
          counted := h.counted.trans hperm.length_eq.symm
          ordered := ⟨l, hperm.trans hl, hsorted, hwrites⟩
          bounded := fun e he => h.bounded e (hperm.mem_iff.mp he) }

theorem Refines.reserveForInsert (h : Refines t m bound) (memory : Memory) :
    Refines (t.reserveForInsert memory).1 m bound := by
  unfold Table.reserveForInsert
  split
  · exact h.resize _ _
  · split
    · exact h
    · split
      · exact h
      · exact h.resize _ _

theorem reserveForInsert_pos {memory : Memory} (hok : t.reserveForInsert memory = (t', .ok)) :
    0 < t'.buckets.length := by
  have hresize : ∀ count, t.resize count memory = (t', .ok) → 0 < t'.buckets.length := by
    intro count hresize
    unfold Table.resize at hresize
    split at hresize
    · simp at hresize
    · next hcount =>
      split at hresize
      · simp at hresize
      · obtain rfl := (Prod.mk.inj hresize).1
        have hpos : 0 < count := by omega
        exact (distribute_spec (slot_lt hpos) t.entries).1.symm ▸ hpos
  unfold Table.reserveForInsert at hok
  split at hok
  · exact hresize _ hok
  · next hrow =>
    split at hok
    · simp at hok
    · split at hok
      · obtain rfl := (Prod.mk.inj hok).1
        exact Nat.pos_of_ne_zero hrow
      · exact hresize _ hok

section

variable (h : Refines t m bound)
include h

theorem Refines.ordered_remove (major minor : UInt64) :
    ∃ l : List (Entry V), (t.entries.eraseP (Entry.holds major minor)).Perm l ∧
      l.Pairwise (fun a b => a.sequence < b.sequence) ∧
      l.map Entry.pair = (m.remove (major, minor)).writes := by
  obtain ⟨l, hl, hsorted, hwrites⟩ := h.ordered
  have hunique := h.pairwise_holds major minor
  refine ⟨l.eraseP (Entry.holds major minor), hl.eraseP _ hunique,
    hsorted.sublist List.eraseP_sublist, ?_⟩
  have hpair : l.Pairwise (fun a b => a.holds major minor → b.holds major minor → False) :=
    hl.pairwise hunique fun hab hb ha => hab ha hb
  have hremove : (m.remove (major, minor)).writes =
      (l.map Entry.pair).filter (fun w => w.1 ≠ (major, minor)) := by
    rw [hwrites]
    rfl
  rw [eraseP_eq_filter hpair, hremove, List.filter_map]
  congr 1
  refine List.filter_congr ?_
  intro e _
  refine Bool.eq_iff_iff.mpr ?_
  simp [Entry.holds, Entry.pair, Entry.key]

/-- A table whose entries are those of another but for one key, which has a new
entry with a higher sequence, stands for the map with that key written. -/
theorem Refines.written {e : Entry V} (hnew : bound < e.sequence)
    (hplaced : Placed (Entry.slot t'.buckets.length) t'.buckets)
    (hcounted : t'.size = t'.entries.length)
    (hperm : t'.entries.Perm (e :: t.entries.eraseP (Entry.holds e.major e.minor))) :
    Refines t' (m.append e.key e.value) e.sequence := by
  have hold : ∀ x ∈ t.entries.eraseP (Entry.holds e.major e.minor), x.sequence ≤ bound :=
    fun x hx => h.bounded x (List.eraseP_subset hx)
  obtain ⟨l, hl, hsorted, hwrites⟩ := h.ordered_remove e.major e.minor
  refine ⟨hplaced, hcounted, ⟨l ++ [e], ?_, ?_, ?_⟩, ?_⟩
  · exact hperm.trans ((hl.cons e).trans (List.perm_append_singleton e l).symm)
  · rw [List.pairwise_append]
    refine ⟨hsorted, List.pairwise_singleton _ _, ?_⟩
    intro x hx y hy
    obtain rfl := List.mem_singleton.mp hy
    exact Nat.lt_of_le_of_lt (hold x (hl.mem_iff.mpr hx)) hnew
  · rw [List.map_append, hwrites]
    rfl
  · intro x hx
    rcases List.mem_cons.mp (hperm.mem_iff.mp hx) with rfl | hx
    · exact Nat.le_refl _
    · exact Nat.le_trans (hold x hx) (Nat.le_of_lt hnew)

theorem Refines.eraseP_chain {i : Nat}
    (hany : (t.buckets.getD i []).any (Entry.holds major minor) = true) :
    i < t.buckets.length ∧ (t.entries.eraseP (Entry.holds major minor)).Perm
        ((t.buckets.getD i []).eraseP (Entry.holds major minor) ++
          (t.buckets.eraseIdx i).flatten) := by
  obtain ⟨e, he, hholds⟩ := List.any_eq_true.mp hany
  have hlt : i < t.buckets.length := by
    by_contra hge
    simp [List.getD_eq_getElem?_getD, List.getElem?_eq_none (Nat.not_lt.mp hge)] at he
  refine ⟨hlt, ?_⟩
  have hchain : t.buckets.getD i [] = t.buckets[i] := by simp [List.getD_eq_getElem?_getD, hlt]
  rw [hchain] at he ⊢
  rw [← List.eraseP_append_left hholds _ he]
  exact (flatten_perm hlt).eraseP _ (h.pairwise_holds major minor)

theorem Refines.placed_set {i : Nat} {chain : List (Entry V)}
    (hkeys : ∀ e ∈ chain, ∃ old ∈ t.buckets.getD i [], old.key = e.key) :
    Placed (Entry.slot (t.buckets.set i chain).length) (t.buckets.set i chain) := by
  rw [List.length_set]
  refine h.placed.set ?_
  intro e he
  obtain ⟨old, hold, hkey⟩ := hkeys e he
  obtain ⟨hmajor, hminor⟩ := Prod.mk.inj hkey
  rw [Entry.slot, ← hmajor, ← hminor]
  cases hchain : t.buckets[i]? with
  | none => simp [List.getD_eq_getElem?_getD, hchain] at hold
  | some row =>
    rw [List.getD_eq_getElem?_getD, hchain] at hold
    exact h.placed i row hchain old hold

theorem Refines.overwrite {value : V} {sequence : Nat} (hnew : bound < sequence)
    (hany : (t.buckets.getD (bucketIndex t.buckets.length major minor) []).any
      (Entry.holds major minor) = true) :
    Refines
      { t with
        buckets := t.buckets.set (bucketIndex t.buckets.length major minor)
          (modifyFirst (Entry.holds major minor)
            (fun e => { e with value := value, sequence := sequence })
            (t.buckets.getD (bucketIndex t.buckets.length major minor) [])) }
      (m.append (major, minor) value) sequence := by
  generalize hi : bucketIndex t.buckets.length major minor = i at hany ⊢
  obtain ⟨hlt, herase⟩ := h.eraseP_chain hany
  obtain ⟨e, hfind⟩ : ∃ e, (t.buckets.getD i []).find? (Entry.holds major minor) = some e := by
    refine Option.isSome_iff_exists.mp ?_
    rw [List.find?_isSome]
    exact List.any_eq_true.mp hany
  have hkey : e.key = (major, minor) := Entry.holds_iff.mp (List.find?_some hfind)
  obtain ⟨hmajor, hminor⟩ := Prod.mk.inj hkey
  have hnewKey : ({ e with value := value, sequence := sequence } : Entry V) =
      ⟨major, minor, sequence, value⟩ := by rw [hmajor, hminor]
  have hmodified := modifyFirst_perm (f := fun e : Entry V =>
    { e with value := value, sequence := sequence }) hfind
  rw [hnewKey] at hmodified
  have hperm := (flatten_set_perm hlt _).trans
    ((hmodified.append_right (t.buckets.eraseIdx i).flatten).trans (herase.symm.cons _))
  refine h.written (e := ⟨major, minor, sequence, value⟩) hnew (h.placed_set ?_) ?_ hperm
  · intro x hx
    rcases List.mem_cons.mp (hmodified.mem_iff.mp hx) with rfl | hx
    · exact ⟨e, List.mem_of_find?_eq_some hfind, hkey⟩
    · exact ⟨x, List.eraseP_subset hx, rfl⟩
  · have hmem : e ∈ t.entries := mem_entries_of_chain (List.mem_of_find?_eq_some hfind)
    have hlength := hperm.length_eq
    rw [List.length_cons, List.length_eraseP_of_mem hmem (List.find?_some hfind)] at hlength
    have hpos : 0 < t.entries.length := List.length_pos_of_mem hmem
    have hcounted := h.counted
    simp only [Table.entries] at hlength hcounted hpos ⊢
    omega

theorem Refines.pushed {value : V} {sequence : Nat}
    (hnew : bound < sequence) (hrow : 0 < t.buckets.length)
    (hnone : (t.buckets.getD (bucketIndex t.buckets.length major minor) []).any
      (Entry.holds major minor) = false) :
    Refines
      { buckets := pushAt t.buckets (bucketIndex t.buckets.length major minor)
          ⟨major, minor, sequence, value⟩
        size := t.size + 1 }
      (m.append (major, minor) value) sequence := by
  have hfree : ∀ e ∈ t.entries, ¬ e.holds major minor = true := by
    intro e he hholds
    have hfound := List.any_eq_true.mpr ⟨e, h.mem_chain he hholds, hholds⟩
    rw [hnone] at hfound
    exact Bool.false_ne_true hfound
  have hperm := flatten_pushAt_perm (i := bucketIndex t.buckets.length major minor)
    (Nat.mod_lt _ hrow) (⟨major, minor, sequence, value⟩ : Entry V)
  refine h.written (e := ⟨major, minor, sequence, value⟩) hnew ?_ ?_ ?_
  · simp only [length_pushAt]
    exact h.placed.pushAt (a := (⟨major, minor, sequence, value⟩ : Entry V))
  · have hlength := hperm.length_eq
    rw [List.length_cons] at hlength
    exact (congrArg (· + 1) h.counted).trans hlength.symm
  · rw [List.eraseP_of_forall_not hfree]
    exact hperm

/-- **Removing a key removes it from the map.** -/
theorem Refines.remove (major minor : UInt64) :
    Refines (t.remove major minor).1 (m.remove (major, minor)) bound := by
  have hsame : (∀ e ∈ t.entries, ¬ e.holds major minor = true) →
      Refines t (m.remove (major, minor)) bound := by
    intro hfree
    obtain ⟨l, hl, hsorted, hwrites⟩ := h.ordered_remove major minor
    rw [List.eraseP_of_forall_not hfree] at hl
    exact ⟨h.placed, h.counted, ⟨l, hl, hsorted, hwrites⟩, h.bounded⟩
  unfold Table.remove
  split
  · next hrow =>
    refine hsame ?_
    intro e he
    simp [Table.entries, List.eq_nil_of_length_eq_zero hrow] at he
  · simp only
    split
    · next hany =>
      obtain ⟨hlt, herase⟩ := h.eraseP_chain hany
      obtain ⟨l, hl, hsorted, hwrites⟩ := h.ordered_remove major minor
      have hperm := (flatten_set_perm hlt _).trans herase.symm
      obtain ⟨e, he, hholds⟩ := List.any_eq_true.mp hany
      refine ⟨h.placed_set ?_, ?_, ⟨l, hperm.trans hl, hsorted, hwrites⟩, ?_⟩
      · intro x hx
        exact ⟨x, List.eraseP_subset hx, rfl⟩
      · have hlength := hperm.length_eq
        rw [List.length_eraseP_of_mem (mem_entries_of_chain he) hholds] at hlength
        have hcounted := h.counted
        simp only [Table.entries] at hlength hcounted ⊢
        omega
      · intro x hx
        exact h.bounded x (List.eraseP_subset (hperm.mem_iff.mp hx))
    · next hnone =>
      refine hsame ?_
      intro e he hholds
      exact hnone (List.any_eq_true.mpr ⟨e, h.mem_chain he hholds, hholds⟩)

end

theorem remove_eq_self (h : (t.remove major minor).2 = false) : (t.remove major minor).1 = t := by
  unfold Table.remove at h ⊢
  split at h
  · next hrow => rw [if_pos hrow]
  · next hrow =>
    simp only at h ⊢
    split at h
    · simp at h
    · next hnone => rw [if_neg hrow, if_neg hnone]

/-- Clearing gives the empty map, whatever the bound then is. -/
theorem Refines.clear (h : Refines t m bound) (bound' : Nat) :
    Refines t.clear WriteOrder.empty bound' := by
  have hnone : ∀ t : Table V, t.entries = [] → t.size = 0 → Refines t WriteOrder.empty bound' := by
    intro t hempty hsize
    refine ⟨?_, by rw [hempty, hsize]; rfl, ⟨[], by rw [hempty], List.Pairwise.nil, rfl⟩, ?_⟩
    · intro i chain hi e he
      have hmem : e ∈ t.entries := List.mem_flatten.mpr ⟨chain, List.mem_of_getElem? hi, he⟩
      simp [hempty] at hmem
    · intro e he
      simp [hempty] at he
  unfold Table.clear
  split
  · next hrow =>
    have hempty : t.entries = [] := by
      rw [Table.entries, List.eq_nil_of_length_eq_zero hrow, List.flatten_nil]
    exact hnone t hempty (by rw [h.counted, hempty]; rfl)
  · refine hnone _ ?_ rfl
    simp [Table.entries]

theorem scanOldest_spec (best : Option (Entry V)) (l : List (Entry V)) {e : Entry V}
    (h : e ∈ best.toList ++ l) :
    ∃ oldest, scanOldest best l = some oldest ∧ oldest ∈ best.toList ++ l ∧
      ∀ x ∈ best.toList ++ l, oldest.sequence ≤ x.sequence := by
  induction l generalizing best e with
  | nil =>
    cases best with
    | none => simp at h
    | some best => exact ⟨best, rfl, by simp, by simp⟩
  | cons a rest ih =>
    cases best with
    | none =>
      obtain ⟨oldest, hscan, hmem, hle⟩ := ih (some a) (e := a) (by simp)
      exact ⟨oldest, hscan, by simpa using hmem, by simpa using hle⟩
    | some best =>
      simp only [scanOldest]
      split
      · next hlt =>
        obtain ⟨oldest, hscan, hmem, hle⟩ := ih (some a) (e := a) (by simp)
        refine ⟨oldest, hscan, List.mem_append_right _ (by simpa using hmem), ?_⟩
        intro x hx
        rcases List.mem_append.mp hx with hx | hx
        · obtain rfl : x = best := by simpa using hx
          have ha := hle a (by simp)
          omega
        · exact hle x (by simpa using hx)
      · next hge =>
        obtain ⟨oldest, hscan, hmem, hle⟩ := ih (some best) (e := best) (by simp)
        refine ⟨oldest, hscan, ?_, ?_⟩
        · simp only [Option.toList_some, List.cons_append, List.nil_append, List.mem_cons] at hmem ⊢
          exact hmem.imp_right Or.inr
        · intro x hx
          have hbest := hle best (by simp)
          simp only [Option.toList_some, List.cons_append, List.nil_append, List.mem_cons] at hx
          rcases hx with rfl | rfl | hx
          · exact hbest
          · omega
          · exact hle x (by simp [hx])

/-- **An eviction takes the oldest write**: it succeeds on every table with an
entry, and the map loses its first pair. -/
theorem Refines.evictOldest (h : Refines t m bound) (hsize : t.size ≠ 0) :
    ∃ t', t.evictOldest = some t' ∧ t'.size = t.size - 1 ∧
      ∀ m' : WriteOrder (UInt64 × UInt64) V, m'.writes = m.writes.tail → Refines t' m' bound := by
  obtain ⟨l, hl, hsorted, hwrites⟩ := h.ordered
  cases l with
  | nil =>
    have hempty := hl.length_eq
    rw [← h.counted] at hempty
    exact absurd hempty hsize
  | cons first rest =>
    have hfirst : first ∈ t.entries := hl.mem_iff.mpr (by simp)
    obtain ⟨oldest, hscan, hmem, hle⟩ := scanOldest_spec none t.entries (e := first)
      (by simpa using hfirst)
    have hrow : t.buckets.length ≠ 0 := by
      intro hzero
      simp [Table.entries, List.eq_nil_of_length_eq_zero hzero] at hfirst
    -- the first of the sorted list has the smallest sequence
    have hsequence : oldest.sequence = first.sequence := by
      have holdest : oldest ∈ first :: rest := hl.mem_iff.mp (by simpa using hmem)
      have hupper := hle first (by simpa using hfirst)
      rcases List.mem_cons.mp holdest with rfl | hrest
      · rfl
      · have hlower := List.rel_of_pairwise_cons hsorted hrest
        omega
    have hunique : t.entries.Pairwise (fun a b => (a.sequence == oldest.sequence) = true →
        (b.sequence == oldest.sequence) = true → False) := by
      refine (hl.pairwise_iff ?_).mpr (hsorted.imp ?_)
      · intro a b hab hb ha
        exact hab ha hb
      · intro a b hlt ha hb
        have ha' := beq_iff_eq.mp ha
        have hb' := beq_iff_eq.mp hb
        omega
    have hrest : (t.entries.eraseP (fun e => e.sequence == oldest.sequence)).Perm rest := by
      have hperm := hl.eraseP _ hunique
      rwa [List.eraseP_cons_of_pos (by simp [hsequence])] at hperm
    refine ⟨_, by rw [Table.evictOldest, if_neg (by simp [hrow, hsize]), hscan], rfl, ?_⟩
    intro m' hm'
    have hentries : (eraseFirst (fun e => e.sequence == oldest.sequence) t.buckets).flatten =
        t.entries.eraseP (fun e => e.sequence == oldest.sequence) := flatten_eraseFirst _ _
    refine ⟨?_, ?_, ⟨rest, ?_, hsorted.of_cons, ?_⟩, ?_⟩
    · simp only [length_eraseFirst]
      exact h.placed.eraseFirst _
    · have hlength := hl.length_eq
      rw [← h.counted, List.length_cons] at hlength
      rw [Table.entries, hentries, hrest.length_eq, ← Nat.add_sub_cancel rest.length 1, hlength]
    · rw [Table.entries, hentries]
      exact hrest
    · rw [hm', ← hwrites]
      rfl
    · intro e he
      rw [Table.entries, hentries] at he
      exact h.bounded e (List.eraseP_subset he)

theorem Refines.length_writes (h : Refines t m bound) : m.writes.length = t.size := by
  obtain ⟨l, hl, -, hwrites⟩ := h.ordered
  rw [h.counted, hl.length_eq, ← hwrites, List.length_map]

theorem Refines.trimLoop {max : Nat} (fuel : Nat) (hfuel : t.size ≤ fuel)
    (h : Refines t m bound) {m' : WriteOrder (UInt64 × UInt64) V}
    (hm' : m'.writes = m.writes.drop (m.writes.length - max)) :
    Refines (t.trimLoop max fuel) m' bound := by
  have hdone : ∀ {t : Table V} {m : WriteOrder (UInt64 × UInt64) V}, Refines t m bound →
      m'.writes = m.writes.drop (m.writes.length - max) → t.size ≤ max → Refines t m' bound := by
    intro t m h hm' hle
    rw [h.length_writes, Nat.sub_eq_zero_of_le hle, List.drop_zero] at hm'
    exact ⟨h.placed, h.counted, hm' ▸ h.ordered, h.bounded⟩
  induction fuel generalizing t m with
  | zero =>
    have hle : t.size ≤ max := by omega
    exact hdone h hm' hle
  | succ fuel ih =>
    unfold Table.trimLoop
    split
    · next hover =>
      obtain ⟨t', hevict, hsize, hrefines⟩ := h.evictOldest (by omega)
      have htail : (m.writes.tail.map Prod.fst).Nodup := by
        rw [List.map_tail]
        exact m.distinct.sublist (List.tail_sublist _)
      have hdrop : m'.writes = m.writes.tail.drop (m.writes.tail.length - max) := by
        have hmany := h.length_writes
        rw [hm', List.length_tail, ← List.drop_one, List.drop_drop]
        congr 1
        omega
      rw [hevict]
      exact ih (m := ⟨m.writes.tail, htail⟩) (by omega) (hrefines _ rfl) hdrop
    · next hover =>
      have hle : t.size ≤ max := by omega
      exact hdone h hm' hle

/-- **The trim keeps the most recent writes.** -/
theorem Refines.trim (h : Refines t m bound) (max : Nat) :
    Refines (t.trim max) (m.trim max) bound := by
  unfold Table.trim
  split
  · next hmax => rwa [WriteOrder.trim_of_le (fun hne => absurd hmax hne)]
  · next hmax => exact h.trimLoop t.size (Nat.le_refl _) (by simp [WriteOrder.trim, hmax])

/-- **A write that succeeds is a write of the map under the limit; one that fails
leaves the map.** -/
theorem Refines.put (h : Refines t m bound) {sequence : Nat} (hnew : bound < sequence)
    (major minor : UInt64) (value : V) (max : Nat) (memory : Memory) {status : Status}
    (hput : t.put major minor value sequence max memory = (t', status)) :
    (status = .ok ∧ Refines t' (m.write max (major, minor) value) sequence) ∨
      (status ≠ .ok ∧ Refines t' m sequence) := by
  have hreserved := h.reserveForInsert memory
  unfold Table.put at hput
  split at hput
  · next r hok =>
    have hrow := reserveForInsert_pos hok
    rw [hok] at hreserved
    simp only at hput
    split at hput
    · next hany =>
      obtain ⟨rfl, rfl⟩ := Prod.mk.inj hput
      exact Or.inl ⟨rfl, (hreserved.overwrite hnew hany).trim max⟩
    · next hnone =>
      split at hput
      · obtain ⟨rfl, rfl⟩ := Prod.mk.inj hput
        exact Or.inr ⟨by decide, hreserved.mono (Nat.le_of_lt hnew)⟩
      · obtain ⟨rfl, rfl⟩ := Prod.mk.inj hput
        exact Or.inl ⟨rfl, (hreserved.pushed hnew hrow (by simpa using hnone)).trim max⟩
  · next r other hother hreserve =>
    obtain ⟨rfl, rfl⟩ := Prod.mk.inj hput
    rw [hreserve] at hreserved
    exact Or.inr ⟨hother, hreserved.mono (Nat.le_of_lt hnew)⟩

end Operations

end Dcc.Cache
