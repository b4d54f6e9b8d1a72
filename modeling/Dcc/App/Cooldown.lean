import Dcc.App.Routes
import Dcc.Lib.Growing
import Dcc.Lib.FixedWindow

/-!
# The cooldown middleware

One table holds the windows of all keys.  An invocation drops the entries whose window is
over, looks its own entry up or appends one, and counts it there.  The clock counts
nanoseconds in a word, so that a time in milliseconds is far from the largest word, where the
ends of windows are cut off.

* `cooldownPrune_entries` — compaction in place keeps the open windows;
* `Agrees` — what holds between two invocations: the table has, for every key, the window of
  a counter that sees the invocations of this key alone, unless that window is over;
* `cooldown_windows` — in every run along a clock that does not go back, the decisions
  for a key are those of its own counter.
-/

namespace Dcc.App

open FixedWindow

/-! ## Options -/

/-- `dcc_app_cooldown_options_t` as a caller hands it in: `size` says how much of it there
is, and `bucket` is any number. -/
structure CooldownRequest where
  size : Nat
  bucket : Nat
  limit : Nat
  windowMs : Nat

/-- `dcc_app_cooldown_options_t` as it is stored. -/
structure CooldownLimit where
  bucket : CooldownBucket
  limit : Nat
  windowMs : Nat
  limit_pos : limit ≠ 0
  window_pos : windowMs ≠ 0

/-- `dcc_app_cooldown_options_has_field`. -/
def CooldownRequest.hasField (options : CooldownRequest) (offset fieldSize : Nat) : Bool :=
  options.size == 0 || (decide (offset ≤ options.size) && decide (fieldSize ≤ options.size - offset))

/-- The `switch` over the bucket. -/
def cooldownBucketOf : Nat → Option CooldownBucket
  | 1 => some .global
  | 2 => some .user
  | 3 => some .channel
  | 4 => some .guild
  | _ => none

/-- `dcc_app_cooldown_normalize_options`; the defaults are those of
`dcc_app_cooldown_options_init`. -/
def cooldownNormalizeOptions (options : CooldownRequest) : Except Status CooldownLimit :=
  if !options.hasField 16 8 then .error .invalidArg
  else
    let bucket := if options.hasField 8 4 then options.bucket else 2
    let limit := if options.hasField 12 4 then options.limit else 0
    if hzero : limit = 0 ∨ options.windowMs = 0 then .error .invalidArg
    else
      match cooldownBucketOf bucket with
      | none => .error .invalidArg
      | some bucket =>
        .ok ⟨bucket, limit, options.windowMs, fun h => hzero (.inl h), fun h => hzero (.inr h)⟩

/-! ## The table -/

/-- `dcc_app_cooldown_entry_t`. -/
structure CooldownEntry where
  key : Nat
  resetAtMs : Nat
  count : Nat
  deriving DecidableEq, Repr

/-- `dcc_app_cooldown_state_t`: `entries` are the entries in use of the `cap` there are. -/
structure CooldownState where
  options : CooldownLimit
  entries : List CooldownEntry
  cap : Nat

/-- `dcc_app_cooldown_new`. -/
def cooldownNew (options : CooldownLimit) : CooldownState := ⟨options, [], 0⟩

/-- The ids of a `dcc_ctx_t`, and whether its event is an autocompletion. -/
structure CooldownCtx where
  userId : Nat
  channelId : Nat
  guildId : Nat
  autocomplete : Bool

/-- One invocation of the middleware: what `llam_now_ns` reads, and the sizes that `realloc`
grants. -/
structure CooldownCall where
  ctx : CooldownCtx
  nowNs : UInt64
  granted : Nat → Bool

/-- `dcc_app_cooldown_now_ms`. -/
def CooldownCall.nowMs (call : CooldownCall) : Nat := call.nowNs.toNat / 1000000

/-- `dcc_app_cooldown_key`. -/
def cooldownKey (bucket : CooldownBucket) (ctx : CooldownCtx) : Nat :=
  match bucket with
  | .global => 1
  | .user => ctx.userId
  | .channel => ctx.channelId
  | .guild => ctx.guildId

/-- `dcc_app_cooldown_saturating_add_ms`. -/
def cooldownSaturatingAddMs (value add : Nat) : Nat :=
  if value > wordMax - add then wordMax else value + add

/-- `dcc_app_cooldown_prune`. -/
def cooldownPrune (state : CooldownState) (nowMs : Nat) : CooldownState :=
  let left := Growing.compact (fun entry => decide (nowMs < entry.resetAtMs))
    state.entries.length 0 0 state.entries
  { state with entries := left.1.take left.2 }

/-- `sizeof(dcc_app_cooldown_entry_t)`. -/
def cooldownEntrySize : Nat := 24

/-- `dcc_app_cooldown_reserve`: the capacity afterwards. -/
def cooldownReserve (granted : Nat → Bool) (state : CooldownState) (need : Nat) :
    Except Status Nat :=
  if need ≤ state.cap then .ok state.cap
  else
    match Growing.grow wordMax 64 (if state.cap ≠ 0 then state.cap else 8) need with
    | none => .error .nomem
    | some nextCap =>
      if nextCap > wordMax / cooldownEntrySize then .error .nomem
      else if granted (nextCap * cooldownEntrySize) then .ok nextCap
      else .error .nomem

/-- `dcc_app_cooldown_find`: the place of the entry. -/
def cooldownFind (state : CooldownState) (key : Nat) : Option Nat :=
  if key = 0 then none else state.entries.findIdx? fun entry => entry.key == key

/-- `dcc_app_cooldown_add_entry`: the state and the place of the new entry. -/
def cooldownAddEntry (granted : Nat → Bool) (state : CooldownState) (key nowMs : Nat) :
    Except Status (CooldownState × Nat) :=
  if key = 0 then .error .invalidArg
  else if state.entries.length = wordMax then .error .nomem
  else
    match cooldownReserve granted state (state.entries.length + 1) with
    | .error status => .error status
    | .ok cap =>
      .ok ({ state with
        entries := state.entries ++ [⟨key, cooldownSaturatingAddMs nowMs state.options.windowMs, 0⟩]
        cap := cap }, state.entries.length)

/-! ## The middleware -/

/-- What a refused invocation is answered with. -/
inductive CooldownReply
  | autocomplete
  | error (title description : String)
  deriving DecidableEq, Repr

/-- `dcc_app_guard_reject`. -/
def cooldownReject (ctx : CooldownCtx) (title description : String) :
    Status × Option CooldownReply :=
  (.state, some (if ctx.autocomplete then .autocomplete else .error title description))

/-- The text of the refusal while a window is used up. -/
def cooldownDescription (resetAtMs nowMs : Nat) : String :=
  let remainingMs := if resetAtMs > nowMs then resetAtMs - nowMs else 0
  let remainingS := wordAdd remainingMs 999 / 1000
  "Try again in " ++ toString remainingS ++ " second" ++ (if remainingS = 1 then "" else "s") ++ "."

/-- The part of the middleware that works on the entry at `place`. -/
def cooldownCount (ctx : CooldownCtx) (nowMs : Nat) (state : CooldownState) (place : Nat) :
    CooldownState × Status × Option CooldownReply :=
  match state.entries[place]? with
  | none => (state, .runtime, none)
  | some entry =>
    if entry.count ≥ state.options.limit then
      (state, cooldownReject ctx "Slow down" (cooldownDescription entry.resetAtMs nowMs))
    else
      ({ state with entries := state.entries.set place { entry with count := entry.count + 1 } },
        .ok, none)

/-- `dcc_app_cooldown_middleware`. -/
def cooldownMiddleware (state : CooldownState) (call : CooldownCall) :
    CooldownState × Status × Option CooldownReply :=
  let key := cooldownKey state.options.bucket call.ctx
  if key = 0 then
    (state, cooldownReject call.ctx "Cooldown unavailable"
      "This action cannot be rate limited in the current context.")
  else
    let nowMs := call.nowMs
    let state := cooldownPrune state nowMs
    match cooldownFind state key with
    | none =>
      match cooldownAddEntry call.granted state key nowMs with
      | .error status => (state, status, none)
      | .ok (state, place) => cooldownCount call.ctx nowMs state place
    | some place =>
      let refreshed := state.entries.modify place fun entry =>
        if nowMs ≥ entry.resetAtMs then
          { entry with
            count := 0
            resetAtMs := cooldownSaturatingAddMs nowMs state.options.windowMs }
        else entry
      cooldownCount call.ctx nowMs { state with entries := refreshed } place

/-- The invocations of a run, each with the status it comes back with. -/
def cooldownTrace : CooldownState → List CooldownCall → List (CooldownCall × Status)
  | _, [] => []
  | state, call :: calls =>
    let r := cooldownMiddleware state call
    (call, r.2.1) :: cooldownTrace r.1 calls

/-! ## The entries as a partial function of the key -/

/-- The entry of a key. -/
def entryOf (entries : List CooldownEntry) (key : Nat) : Option CooldownEntry :=
  entries.find? fun entry => entry.key == key

/-- No key has two entries. -/
def KeysOnce (entries : List CooldownEntry) : Prop := (entries.map CooldownEntry.key).Nodup

section Entries

variable {entries : List CooldownEntry} {entry : CooldownEntry} {key other place : Nat}

theorem entryOf_mem (h : entryOf entries key = some entry) : entry ∈ entries :=
  List.mem_of_find?_eq_some h

/-- Compaction in place keeps the open windows. -/
theorem cooldownPrune_entries (state : CooldownState) (nowMs : Nat) :
    (cooldownPrune state nowMs).entries =
      state.entries.filter fun entry => decide (nowMs < entry.resetAtMs) :=
  Growing.compact_eq_filter _ _

theorem KeysOnce.filter (h : KeysOnce entries) (p : CooldownEntry → Bool) :
    KeysOnce (entries.filter p) :=
  h.sublist (List.filter_sublist.map _)

theorem entryOf_filter (h : KeysOnce entries) (p : CooldownEntry → Bool) (key : Nat) :
    entryOf (entries.filter p) key = (entryOf entries key).filter p := by
  induction entries with
  | nil => rfl
  | cons head entries ih =>
    obtain ⟨hnew, hrest⟩ := List.nodup_cons.mp h
    have ih := ih hrest
    unfold entryOf at ih ⊢
    by_cases hkey : head.key = key
    · have hnone : entries.find? (fun entry => entry.key == key) = none := by
        rw [List.find?_eq_none]
        intro entry hmem hsame
        exact hnew (List.mem_map.mpr ⟨entry, hmem, (beq_iff_eq.mp hsame).trans hkey.symm⟩)
      rw [hnone] at ih
      rw [List.find?_cons_of_pos (by simpa using hkey)]
      by_cases hp : p head
      · rw [List.filter_cons_of_pos hp, List.find?_cons_of_pos (by simpa using hkey)]
        simp [Option.filter, hp]
      · rw [List.filter_cons_of_neg hp, ih]
        simp [Option.filter, hp]
    · rw [List.find?_cons_of_neg (by simpa using hkey), ← ih]
      by_cases hp : p head
      · rw [List.filter_cons_of_pos hp, List.find?_cons_of_neg (by simpa using hkey)]
      · rw [List.filter_cons_of_neg hp]

theorem entryOf_append (hnew : entryOf entries entry.key = none) :
    entryOf (entries ++ [entry]) other =
      if other = entry.key then some entry else entryOf entries other := by
  unfold entryOf at *
  rw [List.find?_append]
  by_cases hkey : other = entry.key
  · rw [if_pos hkey, hkey, hnew]
    simp
  · rw [if_neg hkey, List.find?_cons_of_neg (by simpa using fun h => hkey h.symm)]
    simp

theorem KeysOnce.append (h : KeysOnce entries) (hnew : entryOf entries entry.key = none) :
    KeysOnce (entries ++ [entry]) := by
  rw [entryOf, List.find?_eq_none] at hnew
  rw [KeysOnce, List.map_append, List.nodup_append]
  refine ⟨h, by simp, ?_⟩
  intro a ha b hb hsame
  rw [List.map_singleton, List.mem_singleton] at hb
  obtain ⟨old, hold, rfl⟩ := List.mem_map.mp ha
  exact hnew old hold (by simpa using hsame.trans hb)

theorem cooldownFind_split {state : CooldownState} (hkey : key ≠ 0)
    (h : cooldownFind state key = some place) :
    ∃ pre entry post, state.entries = pre ++ entry :: post ∧ place = pre.length ∧
      entry.key = key ∧ entryOf pre key = none := by
  rw [cooldownFind, if_neg hkey] at h
  obtain ⟨hlt, hfound, hbefore⟩ := List.findIdx?_eq_some_iff_getElem.mp h
  refine ⟨state.entries.take place, state.entries[place], state.entries.drop (place + 1),
    ?_, ?_, beq_iff_eq.mp hfound, ?_⟩
  · rw [List.getElem_cons_drop, List.take_append_drop]
  · rw [List.length_take]
    omega
  · rw [entryOf, List.find?_eq_none]
    intro entry hmem
    obtain ⟨i, hi, rfl⟩ := List.mem_iff_getElem.mp hmem
    rw [List.length_take] at hi
    rw [List.getElem_take]
    exact hbefore i (by omega)

theorem cooldownFind_none {state : CooldownState} (hkey : key ≠ 0)
    (h : cooldownFind state key = none) : entryOf state.entries key = none := by
  rw [cooldownFind, if_neg hkey, List.findIdx?_eq_none_iff] at h
  rw [entryOf, List.find?_eq_none]
  intro entry hmem
  simpa using h entry hmem

variable {pre post : List CooldownEntry} {next : CooldownEntry}

theorem entryOf_split (hpre : entryOf pre entry.key = none) :
    entryOf (pre ++ entry :: post) entry.key = some entry := by
  unfold entryOf at *
  rw [List.find?_append, hpre, List.find?_cons_of_pos (by simp)]
  rfl

theorem entryOf_replace (hsame : next.key = entry.key) (hother : other ≠ entry.key) :
    entryOf (pre ++ next :: post) other = entryOf (pre ++ entry :: post) other := by
  unfold entryOf
  rw [List.find?_append, List.find?_append,
    List.find?_cons_of_neg (by simpa [hsame] using hother.symm),
    List.find?_cons_of_neg (by simpa using hother.symm)]

theorem KeysOnce.replace (h : KeysOnce (pre ++ entry :: post)) (hsame : next.key = entry.key) :
    KeysOnce (pre ++ next :: post) := by
  rw [KeysOnce, List.map_append, List.map_cons] at h ⊢
  rwa [hsame]

theorem modify_split (f : CooldownEntry → CooldownEntry) :
    (pre ++ entry :: post).modify pre.length f = pre ++ f entry :: post := by
  induction pre with
  | nil => rfl
  | cons head pre ih => simpa using ih

end Entries

/-! ## One invocation -/

section Invocation

variable {state : CooldownState} {call : CooldownCall} {entry : CooldownEntry} {key : Nat}

/-- What an invocation of a key does to the table of open windows. -/
inductive Counted (limit : Nat) (fresh : CooldownEntry) (entries : List CooldownEntry)
    (key : Nat) : List CooldownEntry → Status → Prop
  /-- There is no memory for a new entry. -/
  | failed (hnone : entryOf entries key = none) : Counted limit fresh entries key entries .nomem
  /-- The window is used up. -/
  | rejected {entry : CooldownEntry} (hfound : entryOf entries key = some entry)
      (hfull : limit ≤ entry.count) : Counted limit fresh entries key entries .state
  /-- The window of the key, or a new one, counts one more. -/
  | accepted {after : List CooldownEntry}
      (hroom : ((entryOf entries key).getD fresh).count < limit)
      (hself : entryOf after key = some { (entryOf entries key).getD fresh with
          count := ((entryOf entries key).getD fresh).count + 1 })
      (hothers : ∀ other, other ≠ key → entryOf after other = entryOf entries other)
      (honce : KeysOnce after) : Counted limit fresh entries key after .ok

theorem cooldownCount_spec {ctx : CooldownCtx} {nowMs : Nat} {pre post : List CooldownEntry}
    (hsplit : state.entries = pre ++ entry :: post) (hpre : entryOf pre entry.key = none)
    (honce : KeysOnce state.entries) :
    let r := cooldownCount ctx nowMs state pre.length
    r.1.options = state.options ∧
      (state.options.limit ≤ entry.count ∧ r.1.entries = state.entries ∧ r.2.1 = .state ∨
        entry.count < state.options.limit ∧ r.2.1 = .ok ∧ KeysOnce r.1.entries ∧
          entryOf r.1.entries entry.key = some { entry with count := entry.count + 1 } ∧
          ∀ other, other ≠ entry.key → entryOf r.1.entries other = entryOf state.entries other) := by
  have hget : state.entries[pre.length]? = some entry := by
    rw [hsplit]
    simp
  have hset : state.entries.set pre.length { entry with count := entry.count + 1 } =
      pre ++ { entry with count := entry.count + 1 } :: post := by
    rw [hsplit]
    simp
  simp only [cooldownCount, hget]
  by_cases hfull : entry.count ≥ state.options.limit
  · rw [if_pos hfull]
    exact ⟨rfl, .inl ⟨hfull, rfl, rfl⟩⟩
  · rw [if_neg hfull]
    refine ⟨rfl, .inr ⟨by omega, rfl, ?_, ?_, ?_⟩⟩
    · rw [hset]
      rw [hsplit] at honce
      exact honce.replace rfl
    · rw [hset]
      exact @entryOf_split { entry with count := entry.count + 1 } pre post hpre
    · intro other hother
      rw [hset, hsplit]
      exact entryOf_replace rfl hother

/-- The entry that a window of `key` starts with. -/
def freshEntry (options : CooldownLimit) (key nowMs : Nat) : CooldownEntry :=
  ⟨key, cooldownSaturatingAddMs nowMs options.windowMs, 0⟩

theorem cooldownReserve_error {granted : Nat → Bool} {need : Nat} {status : Status}
    (h : cooldownReserve granted state need = .error status) : status = .nomem := by
  unfold cooldownReserve at h
  split at h
  · cases h
  · split at h
    · exact (Except.error.inj h).symm
    · split at h
      · exact (Except.error.inj h).symm
      · split at h
        · cases h
        · exact (Except.error.inj h).symm

/-- **One invocation of a key** works on the table without the windows that are over. -/
theorem cooldownMiddleware_spec (hkey : cooldownKey state.options.bucket call.ctx = key)
    (hne : key ≠ 0) (honce : KeysOnce state.entries) :
    (cooldownMiddleware state call).1.options = state.options ∧
      Counted state.options.limit (freshEntry state.options key call.nowMs)
        (state.entries.filter fun entry => decide (call.nowMs < entry.resetAtMs)) key
        (cooldownMiddleware state call).1.entries (cooldownMiddleware state call).2.1 := by
  have hpruned := cooldownPrune_entries state call.nowMs
  have hoptions : (cooldownPrune state call.nowMs).options = state.options := rfl
  have honce' : KeysOnce (cooldownPrune state call.nowMs).entries := by
    rw [hpruned]
    exact honce.filter _
  rw [← hpruned]
  simp only [cooldownMiddleware, hkey, if_neg hne]
  generalize hstate : cooldownPrune state call.nowMs = pruned at *
  rw [← hoptions]
  cases hfind : cooldownFind pruned key with
  | none =>
    have hnone := cooldownFind_none hne hfind
    simp only [cooldownAddEntry, if_neg hne]
    by_cases hlen : pruned.entries.length = wordMax
    · rw [if_pos hlen]
      exact ⟨rfl, .failed hnone⟩
    rw [if_neg hlen]
    cases hreserve : cooldownReserve call.granted pruned (pruned.entries.length + 1) with
    | error status =>
      cases cooldownReserve_error hreserve
      exact ⟨rfl, .failed hnone⟩
    | ok cap =>
      have hnone' : entryOf pruned.entries (freshEntry pruned.options key call.nowMs).key = none :=
        hnone
      obtain ⟨hsame, ⟨hfull, -⟩ | ⟨hroom, hstatus, honce, hself, hothers⟩⟩ :=
        @cooldownCount_spec { pruned with
            entries := pruned.entries ++ [freshEntry pruned.options key call.nowMs]
            cap := cap } (freshEntry pruned.options key call.nowMs) call.ctx call.nowMs
          pruned.entries [] rfl hnone' (honce'.append hnone')
      · exact absurd (Nat.le_zero.mp hfull) pruned.options.limit_pos
      · refine ⟨hsame, ?_⟩
        have hgetD : (entryOf pruned.entries key).getD
            (freshEntry pruned.options key call.nowMs) =
              freshEntry pruned.options key call.nowMs := by
          rw [hnone]
          rfl
        have hcounted := @Counted.accepted pruned.options.limit
          (freshEntry pruned.options key call.nowMs) pruned.entries key _
          (by rw [hgetD]; exact hroom) (by rw [hgetD]; exact hself)
          (fun other hother =>
            (hothers other hother).trans ((entryOf_append hnone').trans (if_neg hother)))
          honce
        rw [← hstatus] at hcounted
        exact hcounted
  | some place =>
    obtain ⟨pre, entry, post, hsplit, rfl, rfl, hpre⟩ := cooldownFind_split hne hfind
    have hfound : entryOf pruned.entries entry.key = some entry := by
      rw [hsplit]
      exact entryOf_split hpre
    have hopen : call.nowMs < entry.resetAtMs := by
      have hmem := entryOf_mem hfound
      rw [hpruned, List.mem_filter] at hmem
      exact of_decide_eq_true hmem.2
    simp only []
    rw [hsplit, modify_split, if_neg (by omega), ← hsplit]
    obtain ⟨hsame, ⟨hfull, hkept, hstatus⟩ | ⟨hroom, hstatus, honce, hself, hothers⟩⟩ :=
      @cooldownCount_spec pruned entry call.ctx call.nowMs pre post hsplit hpre honce'
    · refine ⟨hsame, ?_⟩
      rw [hstatus, hkept]
      exact .rejected hfound hfull
    · refine ⟨hsame, ?_⟩
      rw [hstatus]
      refine .accepted ?_ ?_ hothers honce
      · rw [hfound]
        exact hroom
      · rw [hfound]
        exact hself

end Invocation

/-! ## A counter for each key -/

section Counters

variable {options : CooldownLimit} {entries after : List CooldownEntry} {last now key other : Nat}
variable {window : Option Window} {status : Status}

/-- What the table has for a key, against the counter of this key: its window, or nothing
where that window was over at `last`. -/
def Agrees (options : CooldownLimit) (entries : List CooldownEntry) (last key : Nat)
    (window : Option Window) : Prop :=
  match entryOf entries key with
  | some entry => ∃ w, window = some w ∧ entry.count = w.admitted ∧
      entry.resetAtMs = cooldownSaturatingAddMs w.opened options.windowMs
  | none => ∀ w, window = some w → ¬ w.Open options.windowMs last

theorem CooldownCall.nowMs_lt (call : CooldownCall) : call.nowMs < wordMax := by
  have hword := call.nowNs.toNat_lt
  unfold CooldownCall.nowMs wordMax wordSize
  omega

theorem lt_saturatingAddMs {value add : Nat} (hnow : now < wordMax) :
    now < cooldownSaturatingAddMs value add ↔ now < value + add := by
  unfold cooldownSaturatingAddMs
  split <;> omega

theorem Agrees.prune (h : Agrees options entries last key window) (honce : KeysOnce entries)
    (hle : last ≤ now) (hnow : now < wordMax) :
    Agrees options (entries.filter fun entry => decide (now < entry.resetAtMs)) now key window := by
  unfold Agrees at h ⊢
  rw [entryOf_filter honce]
  cases hentry : entryOf entries key with
  | none =>
    rw [hentry] at h
    intro w hw hopen
    exact h w hw (hopen.of_le hle)
  | some entry =>
    rw [hentry] at h
    obtain ⟨w, hw, hcount, hreset⟩ := h
    by_cases hopen : now < entry.resetAtMs
    · rw [Option.filter_some_pos (by simpa using hopen)]
      exact ⟨w, hw, hcount, hreset⟩
    · rw [Option.filter_some_neg (by simpa using hopen)]
      intro w' hw'
      obtain rfl : w = w' := Option.some.inj (hw.symm.trans hw')
      rw [hreset, lt_saturatingAddMs hnow] at hopen
      exact hopen

variable {fresh : CooldownEntry}

theorem Agrees.of_other {limit : Nat} (h : Agrees options entries now other window)
    (hcounted : Counted limit fresh entries key after status) (hne : other ≠ key) :
    Agrees options after now other window := by
  cases hcounted with
  | failed _ => exact h
  | rejected _ _ => exact h
  | accepted _ _ hothers _ =>
    unfold Agrees
    rw [hothers other hne]
    exact h

theorem Counted.keysOnce {limit : Nat}
    (hcounted : Counted limit fresh entries key after status) (h : KeysOnce entries) :
    KeysOnce after := by
  cases hcounted with
  | failed _ => exact h
  | rejected _ _ => exact h
  | accepted _ _ _ honce => exact honce

/-- The status of an invocation that a counter lets pass, or does not. -/
def verdict (pass : Bool) : Status := if pass then .ok else .state

theorem Agrees.current (h : Agrees options entries now key window)
    (hopen : ∀ entry ∈ entries, now < entry.resetAtMs) (hnow : now < wordMax) :
    ((entryOf entries key).getD (freshEntry options key now)).count =
        (current options.windowMs window now).admitted ∧
      ((entryOf entries key).getD (freshEntry options key now)).resetAtMs =
        cooldownSaturatingAddMs (current options.windowMs window now).opened options.windowMs := by
  unfold Agrees at h
  cases hentry : entryOf entries key with
  | none =>
    rw [hentry] at h
    rw [current_of_over h]
    exact ⟨rfl, rfl⟩
  | some entry =>
    rw [hentry] at h
    obtain ⟨w, rfl, hcount, hreset⟩ := h
    have hwindow : w.Open options.windowMs now := by
      have hlt := hopen entry (entryOf_mem hentry)
      rw [hreset, lt_saturatingAddMs hnow] at hlt
      exact hlt
    have hcurrent : FixedWindow.current options.windowMs (some w) now = w := if_pos hwindow
    rw [hcurrent]
    exact ⟨hcount, hreset⟩

/-- **An invocation of a key is a visit to its counter.** -/
theorem Agrees.visit (h : Agrees options entries now key window)
    (hopen : ∀ entry ∈ entries, now < entry.resetAtMs) (hnow : now < wordMax)
    (hcounted : Counted options.limit (freshEntry options key now) entries key after status)
    (hserved : status ≠ .nomem) :
    status = verdict (visit options.limit options.windowMs window now).2 ∧
      Agrees options after now key (some (visit options.limit options.windowMs window now).1) := by
  obtain ⟨hcount, hreset⟩ := h.current hopen hnow
  cases hcounted with
  | failed _ => exact absurd rfl hserved
  | @rejected entry hfound hfull =>
    rw [hfound] at hcount hreset
    rw [Option.getD_some] at hcount hreset
    have hfull' : ¬ (FixedWindow.current options.windowMs window now).admitted < options.limit := by
      omega
    simp only [FixedWindow.visit, if_neg hfull']
    refine ⟨rfl, ?_⟩
    unfold Agrees
    rw [hfound]
    exact ⟨_, rfl, hcount, hreset⟩
  | accepted hroom hself hothers honce =>
    rw [hcount] at hroom
    simp only [FixedWindow.visit, if_pos hroom]
    refine ⟨rfl, ?_⟩
    unfold Agrees
    rw [hself]
    exact ⟨_, rfl, congrArg (· + 1) hcount, hreset⟩

/-- The invocations of a key that did not fail for want of memory. -/
def served (options : CooldownLimit) (key : Nat) (trace : List (CooldownCall × Status)) :
    List (CooldownCall × Status) :=
  trace.filter fun t => cooldownKey options.bucket t.1.ctx == key && t.2 != .nomem

theorem Agrees.run {state : CooldownState} {calls : List CooldownCall} (hkey : key ≠ 0)
    (h : Agrees state.options state.entries last key window) (honce : KeysOnce state.entries)
    (hlast : ∀ call ∈ calls, last ≤ call.nowMs)
    (hclock : calls.Pairwise fun a b => a.nowMs ≤ b.nowMs) :
    (served state.options key (cooldownTrace state calls)).map Prod.snd =
      (decisions state.options.limit state.options.windowMs window
        ((served state.options key (cooldownTrace state calls)).map fun t => t.1.nowMs)).map
          verdict := by
  induction calls generalizing state last window with
  | nil => rfl
  | cons call calls ih =>
    obtain ⟨hfirst, hrest⟩ := List.pairwise_cons.mp hclock
    have hle : last ≤ call.nowMs := hlast call List.mem_cons_self
    simp only [cooldownTrace]
    by_cases hzero : cooldownKey state.options.bucket call.ctx = 0
    · have hstate : (cooldownMiddleware state call).1 = state := by
        simp [cooldownMiddleware, hzero]
      rw [hstate, served, List.filter_cons_of_neg (by simp [hzero, hkey.symm])]
      exact ih h honce (fun call hmem => hlast call (List.mem_cons_of_mem _ hmem)) hrest
    obtain ⟨hoptions, hcounted⟩ := cooldownMiddleware_spec rfl hzero honce
    have hpruned := h.prune honce hle call.nowMs_lt
    have honce' := hcounted.keysOnce (honce.filter _)
    have ih := fun window' h' =>
      @ih call.nowMs window' (cooldownMiddleware state call).1 h' honce' hfirst hrest
    rw [hoptions] at ih
    by_cases hcase : cooldownKey state.options.bucket call.ctx = key ∧
        (cooldownMiddleware state call).2.1 ≠ .nomem
    · obtain ⟨rfl, hserved⟩ := hcase
      obtain ⟨hstatus, hnext⟩ := hpruned.visit
        (fun entry hmem => of_decide_eq_true (List.mem_filter.mp hmem).2) call.nowMs_lt hcounted
        hserved
      rw [served, List.filter_cons_of_pos (by simpa using hserved), List.map_cons, List.map_cons,
        decisions, List.map_cons, ← hstatus]
      exact congrArg _ (ih _ hnext)
    · rw [served, List.filter_cons_of_neg (by simpa using hcase)]
      apply ih
      by_cases hsame : key = cooldownKey state.options.bucket call.ctx
      · have hnomem : (cooldownMiddleware state call).2.1 = .nomem := by
          by_contra hne
          exact hcase ⟨hsame.symm, hne⟩
        rw [hnomem] at hcounted
        generalize (cooldownMiddleware state call).1.entries = entries at hcounted ⊢
        cases hcounted
        exact hpruned
      · exact hpruned.of_other hcounted hsame

end Counters

/-! ## Memory -/

section Memory

variable {state : CooldownState} {call : CooldownCall}

theorem cooldownCount_ne_nomem (ctx : CooldownCtx) (nowMs : Nat) (state : CooldownState)
    (place : Nat) : (cooldownCount ctx nowMs state place).2.1 ≠ .nomem := by
  unfold cooldownCount
  split
  · simp
  · split
    · simp [cooldownReject]
    · simp

theorem length_cooldownCount (ctx : CooldownCtx) (nowMs : Nat) (state : CooldownState)
    (place : Nat) : (cooldownCount ctx nowMs state place).1.entries.length =
      state.entries.length := by
  unfold cooldownCount
  split
  · rfl
  · split
    · rfl
    · simp

theorem length_cooldownPrune (state : CooldownState) (nowMs : Nat) :
    (cooldownPrune state nowMs).entries.length ≤ state.entries.length := by
  rw [cooldownPrune_entries]
  exact List.length_filter_le _ _

theorem cooldownReserve_total {granted : Nat → Bool} {need : Nat} (hneed : need ≤ 2 ^ 58)
    (hgranted : ∀ size, granted size = true) :
    ∃ cap, cooldownReserve granted state need = .ok cap := by
  unfold cooldownReserve
  split
  · exact ⟨_, rfl⟩
  next hroom =>
    have hstart : (if state.cap ≠ 0 then state.cap else 8) ≠ 0 := by
      split
      · assumption
      · decide
    have hsmall : (if state.cap ≠ 0 then state.cap else 8) ≤ 2 ^ 58 := by
      split <;> omega
    generalize (if state.cap ≠ 0 then state.cap else 8) = start at *
    obtain ⟨nextCap, hnext⟩ := @Growing.grow_isSome wordMax 63 start need
      (by unfold wordMax wordSize; omega) (by omega)
    rw [hnext]
    have hle : ¬ nextCap > wordMax / cooldownEntrySize := by
      have hlt := Growing.grow_lt hnext
      unfold wordMax wordSize cooldownEntrySize
      omega
    simp only [if_neg hle, hgranted, if_true]
    exact ⟨_, rfl⟩

theorem cooldownMiddleware_nomem (h : (cooldownMiddleware state call).2.1 = .nomem) :
    (∃ size, call.granted size = false) ∨ 2 ^ 58 ≤ state.entries.length := by
  by_contra hcontra
  rw [not_or, not_exists, Nat.not_le] at hcontra
  obtain ⟨hgranted, hlength⟩ := hcontra
  have hpruned := length_cooldownPrune state call.nowMs
  simp only [cooldownMiddleware] at h
  split at h
  · simp [cooldownReject] at h
  next hkey =>
    generalize cooldownPrune state call.nowMs = pruned at *
    split at h
    · obtain ⟨cap, hcap⟩ := @cooldownReserve_total pruned call.granted (pruned.entries.length + 1)
        (by omega) (fun size => by simpa using hgranted size)
      have hlen : pruned.entries.length ≠ wordMax := by
        unfold wordMax wordSize
        omega
      simp only [cooldownAddEntry, if_neg hkey, if_neg hlen, hcap] at h
      exact cooldownCount_ne_nomem _ _ _ _ h
    · exact cooldownCount_ne_nomem _ _ _ _ h

theorem length_cooldownMiddleware (state : CooldownState) (call : CooldownCall) :
    (cooldownMiddleware state call).1.entries.length ≤ state.entries.length + 1 := by
  have hpruned := length_cooldownPrune state call.nowMs
  simp only [cooldownMiddleware]
  split
  · exact Nat.le_succ _
  next hkey =>
    generalize cooldownPrune state call.nowMs = pruned at *
    split
    · cases hadd : cooldownAddEntry call.granted pruned
          (cooldownKey state.options.bucket call.ctx) call.nowMs with
      | error status => exact Nat.le_succ_of_le hpruned
      | ok r =>
        unfold cooldownAddEntry at hadd
        rw [if_neg hkey] at hadd
        split at hadd
        · cases hadd
        · split at hadd
          · cases hadd
          · cases hadd
            rw [length_cooldownCount]
            simpa using hpruned
    · rw [length_cooldownCount, List.length_modify]
      exact Nat.le_succ_of_le hpruned

variable {t : CooldownCall × Status}

theorem cooldownTrace_nomem {calls : List CooldownCall}
    (h : t ∈ cooldownTrace state calls) (hnomem : t.2 = .nomem) :
    (∃ size, t.1.granted size = false) ∨ 2 ^ 58 ≤ state.entries.length + calls.length := by
  induction calls generalizing state with
  | nil => cases h
  | cons call calls ih =>
    rw [List.length_cons]
    rcases List.mem_cons.mp h with rfl | hmem
    · refine (cooldownMiddleware_nomem hnomem).imp_right fun hle => ?_
      omega
    · have hgrown := length_cooldownMiddleware state call
      refine (ih hmem).imp_right fun hle => ?_
      omega

theorem cooldownTrace_keyless {calls : List CooldownCall}
    (honce : KeysOnce state.entries) (h : t ∈ cooldownTrace state calls)
    (hkey : cooldownKey state.options.bucket t.1.ctx = 0) : t.2 = .state := by
  induction calls generalizing state with
  | nil => cases h
  | cons call calls ih =>
    rcases List.mem_cons.mp h with rfl | hmem
    · simp only at hkey
      simp [cooldownMiddleware, hkey, cooldownReject]
    · by_cases hzero : cooldownKey state.options.bucket call.ctx = 0
      · have hstate : (cooldownMiddleware state call).1 = state := by
          simp [cooldownMiddleware, hzero]
        rw [hstate] at hmem
        exact ih honce hmem hkey
      · obtain ⟨hoptions, hcounted⟩ := cooldownMiddleware_spec rfl hzero honce
        apply ih (hcounted.keysOnce (honce.filter _)) hmem
        rw [hoptions]
        exact hkey

end Memory

/-- **The windows of the keys are independent.**  Along a clock that does not go back, the
decisions for the invocations of a key are those of a counter that sees these alone; an
invocation without a key is refused; and an invocation fails, without being counted, only where
`realloc` does. -/
theorem cooldown_windows (options : CooldownLimit) (calls : List CooldownCall)
    (hclock : calls.Pairwise fun a b => a.nowNs ≤ b.nowNs) :
    (∀ key, key ≠ 0 →
      (served options key (cooldownTrace (cooldownNew options) calls)).map Prod.snd =
        (decisions options.limit options.windowMs none
          ((served options key (cooldownTrace (cooldownNew options) calls)).map
            fun t => t.1.nowMs)).map verdict) ∧
      ∀ t ∈ cooldownTrace (cooldownNew options) calls,
        (cooldownKey options.bucket t.1.ctx = 0 → t.2 = .state) ∧
          (t.2 = .nomem → (∃ size, t.1.granted size = false) ∨ 2 ^ 58 ≤ calls.length) := by
  have honce : KeysOnce (cooldownNew options).entries := List.nodup_nil
  have hclockMs : calls.Pairwise fun a b => a.nowMs ≤ b.nowMs := by
    refine hclock.imp fun {a b} hle => ?_
    exact Nat.div_le_div_right (UInt64.le_iff_toNat_le.mp hle)
  refine ⟨fun key hkey => ?_, fun t hmem => ⟨cooldownTrace_keyless honce hmem, fun hnomem => ?_⟩⟩
  · have hstart : Agrees options (cooldownNew options).entries 0 key none := by
      intro w hw
      cases hw
    exact hstart.run hkey honce (fun call _ => Nat.zero_le _) hclockMs
  · simpa [cooldownNew] using cooldownTrace_nomem hmem hnomem

/-- One invocation in a second for each user, and a run of two users along one clock. -/
def oncePerSecond : CooldownLimit := ⟨.user, 1, 1000, by decide, by decide⟩

/-- An invocation of a user at a time in milliseconds, where memory is granted. -/
def userCall (userId : Nat) (nowMs : UInt64) : CooldownCall :=
  ⟨⟨userId, 5, 0, false⟩, nowMs * 1000000, fun _ => true⟩

/-- The two users, at the exact end of a window, and an invocation without a user. -/
def twoUsers : List CooldownCall :=
  [userCall 7 10, userCall 8 500, userCall 7 1009, userCall 0 1010, userCall 7 1010, userCall 8 1499]

theorem cooldown_windows_twoUsers :
    (served oncePerSecond 7 (cooldownTrace (cooldownNew oncePerSecond) twoUsers)).map Prod.snd =
        [.ok, .state, .ok] ∧
      (served oncePerSecond 7 (cooldownTrace (cooldownNew oncePerSecond) twoUsers)).map Prod.snd =
        (decisions 1 1000 none [10, 1009, 1010]).map verdict := by
  have h := (cooldown_windows oncePerSecond twoUsers (by decide)).1 7 (by decide)
  exact ⟨by decide, h.trans (by decide)⟩

end Dcc.App
