import Dcc.Lib.Keyed
import Dcc.Commands.Plan

/-!
# A plan is complete, and applying it reaches the local commands

The purpose of a plan: whoever carries out its actions on the remote commands has the
local ones there afterwards.  A set of commands is a list of keys with their texts;
`applyDiff` says what an action does to such a set.

* `applyDiffs_represents` — the diffs of a plan write their own keys, each once;
* `plan_complete` — every command has its diff, the counters add up, and applying the
  plan to the remote commands gives the local ones.
-/

namespace Dcc.Commands

open Keyed

variable {Members : Type}

/-! ## The diff of one command -/

/-- The key that a diff names. -/
def Diff.key (diff : Diff) : Key := (diff.type, diff.name)

variable {command : Builder Members}

theorem findRemote_some {remote : List RemoteEntry}
    (hnamed : command.Named) {found : Nat} (h : findRemote remote command = some found) :
    ∃ entry, remote[found]? = some entry ∧ entry.key = command.key := by
  obtain ⟨hlt, hmatches, _⟩ := List.findIdx?_eq_some_iff_getElem.mp h
  exact ⟨remote[found], List.getElem?_eq_getElem hlt, (remoteMatches_iff hnamed _).mp hmatches⟩

variable {entry : RemoteEntry}

theorem findRemote_none {remote : List RemoteEntry}
    (hnamed : command.Named) (h : findRemote remote command = none)
    (hentry : entry ∈ remote) : entry.key ≠ command.key := by
  have hno := (List.findIdx?_eq_none_iff.mp h) entry hentry
  intro hkey
  exact absurd ((remoteMatches_iff hnamed entry).mpr hkey) (by simp [hno])

/-- What the diff of a local command is: a create where no remote command has the key,
else an update, or a no-op when the texts are equal. -/
theorem localDiff_cases (remote : List RemoteEntry)
    (hnamed : command.Named) (index : Nat) (json : Bytes) :
    ((localDiff remote index command json).action = .create ∧
      (localDiff remote index command json).remoteIndex = none ∧
      ∀ entry ∈ remote, entry.key ≠ command.key) ∨
    ∃ found entry, remote[found]? = some entry ∧ entry.key = command.key ∧
      (localDiff remote index command json).remoteIndex = some found ∧
      (localDiff remote index command json).remoteId = remoteId entry ∧
      (localDiff remote index command json).action =
        if remoteJson entry = some json then .noop else .update := by
  cases hfind : findRemote remote command with
  | none =>
    refine .inl ⟨by simp [localDiff, hfind], by simp [localDiff, hfind], ?_⟩
    intro entry hentry
    exact findRemote_none hnamed hfind hentry
  | some found =>
    obtain ⟨entry, hentry, hkey⟩ := findRemote_some hnamed hfind
    refine .inr ⟨found, entry, hentry, hkey, ?_⟩
    simp [localDiff, hfind, hentry]

@[simp] theorem localDiff_localIndex (remote : List RemoteEntry) (index : Nat)
    (command : Builder Members) (json : Bytes) :
    (localDiff remote index command json).localIndex = some index := by
  unfold localDiff
  split <;> rfl

@[simp] theorem localDiff_key (remote : List RemoteEntry) (index : Nat)
    (command : Builder Members) (json : Bytes) :
    (localDiff remote index command json).key = command.key := by
  unfold localDiff
  split <;> rfl

@[simp] theorem localDiff_localJson (remote : List RemoteEntry) (index : Nat)
    (command : Builder Members) (json : Bytes) :
    (localDiff remote index command json).localJson = some json := by
  unfold localDiff
  split <;> rfl

theorem staleDiff_key (deleteStale : Bool) (index : Nat) (entry : RemoteEntry) :
    (staleDiff deleteStale index entry).key = entry.key := rfl

theorem remoteHasLocal_iff {entries : List (Builder Members)}
    (hnamed : ∀ command ∈ entries, command.Named) (remote : RemoteEntry) :
    remoteHasLocal entries remote = true ↔ remote.key ∈ entries.map Builder.key := by
  rw [remoteHasLocal_eq, List.any_eq_true, List.mem_map]
  constructor
  · rintro ⟨command, hmem, hmatches⟩
    exact ⟨command, hmem, ((remoteMatches_iff (hnamed command hmem) remote).mp hmatches).symm⟩
  · rintro ⟨command, hmem, hkey⟩
    exact ⟨command, hmem, (remoteMatches_iff (hnamed command hmem) remote).mpr hkey.symm⟩

/-! ## The indices of a plan -/

section Indices

variable {serializer : Serializer Members} {remote : List RemoteEntry}
  {entries : List (Builder Members)} {deleteStale : Bool}

theorem localDiffs_localIndex (index : Nat) :
    (localDiffs serializer remote index entries).map Diff.localIndex =
      (List.range' index entries.length).map some := by
  induction entries generalizing index with
  | nil => rfl
  | cons command rest ih =>
    have hrest := ih (index + 1)
    simp only [localDiffs] at hrest
    simp [localDiffs, List.range'_succ, hrest]

theorem localDiffs_key (serializer : Serializer Members) (remote : List RemoteEntry) (index : Nat) :
    (localDiffs serializer remote index entries).map Diff.key = entries.map Builder.key := by
  induction entries generalizing index with
  | nil => rfl
  | cons command rest ih =>
    have hrest := ih (index + 1)
    simp only [localDiffs] at hrest
    simp [localDiffs, hrest]

theorem mem_localDiffs {diff : Diff} (h : diff ∈ localDiffs serializer remote 0 entries) :
    ∃ index command, entries[index]? = some command ∧
      diff = localDiff remote index command (serializer.text command) := by
  obtain ⟨⟨command, index⟩, hmem, rfl⟩ := List.mem_map.mp h
  exact ⟨index, command, List.mem_zipIdx_iff_getElem?.mp hmem, rfl⟩

theorem mem_staleDiffs {diff : Diff} (h : diff ∈ staleDiffs deleteStale entries 0 remote) :
    ∃ index entry, remote[index]? = some entry ∧ remoteHasLocal entries entry = false ∧
      diff = staleDiff deleteStale index entry := by
  obtain ⟨⟨entry, index⟩, hmem, rfl⟩ := List.mem_map.mp h
  obtain ⟨hmem, hstale⟩ := List.mem_filter.mp hmem
  exact ⟨index, entry, List.mem_zipIdx_iff_getElem?.mp hmem, by simpa using hstale, rfl⟩

theorem staleDiffs_remoteIndex_nodup :
    ((staleDiffs deleteStale entries 0 remote).map Diff.remoteIndex).Nodup := by
  have hmap : (staleDiffs deleteStale entries 0 remote).map Diff.remoteIndex =
      (((remote.zipIdx 0).filter fun entry => !remoteHasLocal entries entry.1).map
        Prod.snd).map some := by
    simp [staleDiffs, staleDiff, Function.comp_def]
  have hsub : List.Sublist
      (((remote.zipIdx 0).filter fun entry => !remoteHasLocal entries entry.1).map Prod.snd)
      ((remote.zipIdx 0).map Prod.snd) := List.filter_sublist.map _
  have hindex : (remote.zipIdx 0).map Prod.snd = List.range' 0 remote.length := by
    simp
  rw [hmap]
  refine List.Nodup.map (fun _ _ hsame => Option.some.inj hsame) ?_
  exact (hindex ▸ List.nodup_range').sublist hsub

theorem localDiffs_remoteIndex (hnamed : ∀ command ∈ entries, command.Named) {index : Nat}
    (hentry : remote[index]? = some entry)
    (hstale : remoteHasLocal entries entry = false) {diff : Diff}
    (hdiff : diff ∈ localDiffs serializer remote 0 entries) :
    diff.remoteIndex ≠ some index := by
  obtain ⟨own, command, hcommand, rfl⟩ := mem_localDiffs hdiff
  have hmem : command ∈ entries := List.mem_of_getElem? hcommand
  rcases localDiff_cases remote (hnamed command hmem) own (serializer.text command)
    with ⟨_, hnone, _⟩ | ⟨found, other, hother, hkey, hfound, _⟩
  · simp [hnone]
  · intro hsame
    obtain rfl : found = index := by simpa [hfound] using hsame
    obtain rfl : other = entry := by simpa [hother] using hentry
    have hlocal := (remoteHasLocal_iff hnamed other).mpr
      (hkey ▸ List.mem_map_of_mem (f := Builder.key) hmem)
    simp [hlocal] at hstale

end Indices

/-! ## Carrying out the actions -/

/-- A set of commands: keys with their texts, `none` where the text is not known. -/
abbrev CommandSet := List (Key × Option Bytes)

/-- The remote commands of a snapshot. -/
def remoteSet (remote : List RemoteEntry) : CommandSet :=
  remote.map fun entry => (entry.key, remoteJson entry)

/-- The local commands, as they are serialized. -/
def localSet (serializer : Serializer Members) (entries : List (Builder Members)) : CommandSet :=
  entries.map fun command => (command.key, some (serializer.text command))

/-- What an action does to a set of commands. -/
def applyDiff (set : CommandSet) (diff : Diff) : CommandSet :=
  match diff.action with
  | .create => set ++ [(diff.key, diff.localJson)]
  | .update => set.map fun entry => if entry.1 = diff.key then (entry.1, diff.localJson) else entry
  | .deleteStale => set.filter fun entry => entry.1 ≠ diff.key
  | .noop => set

/-- What the set holds at the key of a diff afterwards. -/
def Diff.outcome (diff : Diff) (before : Key → Option (Option Bytes)) : Option (Option Bytes) :=
  match diff.action with
  | .create => some diff.localJson
  | .update => some diff.localJson
  | .deleteStale => none
  | .noop => before diff.key

theorem Diff.outcome_congr {diff : Diff} {f g : Key → Option (Option Bytes)}
    (h : f diff.key = g diff.key) : diff.outcome f = diff.outcome g := by
  unfold Diff.outcome
  rw [h]

/-- A create finds its key free, an update finds it taken. -/
def Diff.Fits (diff : Diff) (before : Key → Option (Option Bytes)) : Prop :=
  (diff.action = .create → before diff.key = none) ∧
    (diff.action = .update → before diff.key ≠ none)

variable {f : Key → Option (Option Bytes)}

variable {set : CommandSet}

theorem applyDiff_represents {diff : Diff} (h : Represents set f) (hfits : diff.Fits f) :
    Represents (applyDiff set diff) (Function.update f diff.key (diff.outcome f)) := by
  unfold applyDiff Diff.outcome
  cases haction : diff.action with
  | noop => simpa using h
  | create => exact h.append (hfits.1 haction)
  | update => exact h.replace (hfits.2 haction)
  | deleteStale => exact h.erase

variable {diffs : List Diff}

/-- Diffs with distinct keys write these keys, whatever their order. -/
theorem applyDiffs_represents (h : Represents set f)
    (hkeys : (diffs.map Diff.key).Nodup) (hfits : ∀ diff ∈ diffs, diff.Fits f) :
    Represents (diffs.foldl applyDiff set) fun key =>
      match diffs.find? fun diff => diff.key = key with
      | some diff => diff.outcome f
      | none => f key := by
  induction diffs generalizing set f with
  | nil => simpa using h
  | cons diff rest ih =>
    obtain ⟨hnew, hrest⟩ := List.nodup_cons.mp hkeys
    have hother : ∀ other ∈ rest, Function.update f diff.key (diff.outcome f) other.key =
        f other.key := by
      intro other hmem
      refine Function.update_of_ne ?_ _ _
      intro hsame
      exact hnew (hsame ▸ List.mem_map_of_mem (f := Diff.key) hmem)
    have hstep := applyDiff_represents h (hfits diff List.mem_cons_self)
    have hfits' : ∀ other ∈ rest, other.Fits (Function.update f diff.key (diff.outcome f)) := by
      intro other hmem
      rw [Diff.Fits, hother other hmem]
      exact hfits other (List.mem_cons_of_mem diff hmem)
    have hfinal := ih hstep hrest hfits'
    refine ⟨hfinal.nodup, ?_⟩
    intro key value
    rw [List.foldl_cons, hfinal.mem_iff]
    by_cases hkey : diff.key = key
    · have hnone : (rest.find? fun other => other.key = key) = none := by
        rw [List.find?_eq_none]
        intro other hmem hsame
        exact hnew (hkey ▸ (of_decide_eq_true hsame) ▸ List.mem_map_of_mem (f := Diff.key) hmem)
      simp only [hnone, List.find?_cons_of_pos, hkey, decide_true]
      rw [← hkey, Function.update_self]
    · rw [List.find?_cons_of_neg (by simpa using hkey)]
      cases hfind : rest.find? fun other => other.key = key with
      | none => simp only [Function.update_of_ne (Ne.symm hkey)]
      | some other =>
        have hmem := List.mem_of_find?_eq_some hfind
        simp only [Diff.outcome_congr (hother other hmem)]

/-- The actions as the requests of the registry address them: an update and a deletion name
the id of the remote command, and a new command gets an id of its own. -/
def applyById (newId : Diff → UInt64) (server : List (UInt64 × Key × Option Bytes)) (diff : Diff) :
    List (UInt64 × Key × Option Bytes) :=
  match diff.action with
  | .create => server ++ [(newId diff, diff.key, diff.localJson)]
  | .update =>
    server.map fun entry =>
      if entry.1 = diff.remoteId then (entry.1, entry.2.1, diff.localJson) else entry
  | .deleteStale => server.filter fun entry => entry.1 ≠ diff.remoteId
  | .noop => server

/-- The diff of an existing command names the same command by its id and by its key. -/
def Diff.Agrees (diff : Diff) (server : List (UInt64 × Key × Option Bytes)) : Prop :=
  diff.action = .update ∨ diff.action = .deleteStale →
    ∀ entry ∈ server, entry.1 = diff.remoteId ↔ entry.2.1 = diff.key

variable {server : List (UInt64 × Key × Option Bytes)}

theorem applyById_map (newId : Diff → UInt64) {diff : Diff} (h : diff.Agrees server) :
    (applyById newId server diff).map Prod.snd = applyDiff (server.map Prod.snd) diff := by
  unfold applyById applyDiff
  cases haction : diff.action with
  | noop => rfl
  | create => simp
  | update =>
    rw [List.map_map, List.map_map]
    refine List.map_congr_left ?_
    intro entry hentry
    have hiff := h (.inl haction) entry hentry
    by_cases hid : entry.1 = diff.remoteId
    · simp [hid, hiff.mp hid]
    · simp [hid, mt hiff.mpr hid]
  | deleteStale =>
    rw [List.filter_map]
    refine congrArg (List.map Prod.snd) (List.filter_congr ?_)
    intro entry hentry
    have hiff := h (.inr haction) entry hentry
    simp [hiff]

variable {newId : Diff → UInt64}

theorem Diff.Agrees.applyById {diff other : Diff} (h : other.Agrees server)
    (hkey : diff.key ≠ other.key) (hnew : newId diff ≠ other.remoteId) :
    other.Agrees (Commands.applyById newId server diff) := by
  intro hother entry hentry
  unfold Commands.applyById at hentry
  cases haction : diff.action with
  | noop =>
    simp only [haction] at hentry
    exact h hother entry hentry
  | create =>
    simp only [haction] at hentry
    rcases List.mem_append.mp hentry with hold | hcreated
    · exact h hother entry hold
    · rw [List.mem_singleton.mp hcreated]
      exact iff_of_false hnew hkey
  | update =>
    simp only [haction] at hentry
    obtain ⟨old, hold, rfl⟩ := List.mem_map.mp hentry
    have hiff := h hother old hold
    split <;> exact hiff
  | deleteStale =>
    simp only [haction] at hentry
    exact h hother entry (List.mem_filter.mp hentry).1

theorem foldl_applyById (hagrees : ∀ diff ∈ diffs, diff.Agrees server)
    (hkeys : (diffs.map Diff.key).Nodup)
    (hnew : ∀ diff ∈ diffs, ∀ other ∈ diffs,
      other.action = .update ∨ other.action = .deleteStale → newId diff ≠ other.remoteId) :
    (diffs.foldl (applyById newId) server).map Prod.snd =
      diffs.foldl applyDiff (server.map Prod.snd) := by
  induction diffs generalizing server with
  | nil => rfl
  | cons diff rest ih =>
    obtain ⟨hfresh, hrest⟩ := List.nodup_cons.mp hkeys
    have hstep := applyById_map newId (hagrees diff List.mem_cons_self)
    rw [List.foldl_cons, List.foldl_cons, ← hstep]
    refine ih ?_ hrest fun one hone other hother =>
      hnew one (List.mem_cons_of_mem diff hone) other (List.mem_cons_of_mem diff hother)
    intro other hother haction
    have hmem := List.mem_cons_of_mem diff hother
    refine (hagrees other hmem).applyById ?_ (hnew diff List.mem_cons_self other hmem haction)
      haction
    intro hsame
    exact hfresh (hsame ▸ List.mem_map_of_mem (f := Diff.key) hother)

/-! ## The plan as a whole -/

/-- The diffs of a plan for the given commands. -/
def planDiffs (serializer : Serializer Members) (entries : List (Builder Members))
    (deleteStale : Bool) (remote : List RemoteEntry) : List Diff :=
  localDiffs serializer remote 0 entries ++ staleDiffs deleteStale entries 0 remote

section Whole

variable {serializer : Serializer Members} {remote : List RemoteEntry}
  {entries : List (Builder Members)} {deleteStale : Bool}

theorem staleDiffs_localIndex {diff : Diff}
    (h : diff ∈ staleDiffs deleteStale entries 0 remote) : diff.localIndex = none := by
  obtain ⟨index, entry, _, _, rfl⟩ := mem_staleDiffs h
  rfl

theorem planDiffs_local_once {index : Nat} (hindex : index < entries.length) :
    ((planDiffs serializer entries deleteStale remote).countP fun diff =>
      diff.localIndex = some index) = 1 := by
  have hstale : ((staleDiffs deleteStale entries 0 remote).countP fun diff =>
      diff.localIndex = some index) = 0 := by
    rw [List.countP_eq_zero]
    intro diff hdiff
    simp [staleDiffs_localIndex hdiff]
  have hlocal : ((localDiffs serializer remote 0 entries).countP fun diff =>
      diff.localIndex = some index) =
        ((localDiffs serializer remote 0 entries).map Diff.localIndex).count (some index) := by
    rw [List.count, List.countP_map]
    refine List.countP_congr ?_
    intro diff _
    simp
  rw [planDiffs, List.countP_append, hstale, hlocal, localDiffs_localIndex]
  refine List.count_eq_one_of_mem ?_ ?_
  · exact List.Nodup.map (fun _ _ hsame => Option.some.inj hsame) List.nodup_range'
  · exact List.mem_map_of_mem (by simpa using hindex)

theorem planDiffs_stale_once (hnamed : ∀ command ∈ entries, command.Named) {index : Nat}
    (hentry : remote[index]? = some entry)
    (hstale : remoteHasLocal entries entry = false) :
    ((planDiffs serializer entries deleteStale remote).countP fun diff =>
      diff.remoteIndex = some index) = 1 := by
  have hlocal : ((localDiffs serializer remote 0 entries).countP fun diff =>
      diff.remoteIndex = some index) = 0 := by
    rw [List.countP_eq_zero]
    intro diff hdiff
    simpa using localDiffs_remoteIndex hnamed hentry hstale hdiff
  have hcount : ((staleDiffs deleteStale entries 0 remote).countP fun diff =>
      diff.remoteIndex = some index) =
        ((staleDiffs deleteStale entries 0 remote).map Diff.remoteIndex).count (some index) := by
    rw [List.count, List.countP_map]
    refine List.countP_congr ?_
    intro diff _
    simp
  have hmem : staleDiff deleteStale index entry ∈ staleDiffs deleteStale entries 0 remote := by
    refine List.mem_map.mpr ⟨(entry, index), List.mem_filter.mpr ⟨?_, by simpa using hstale⟩, rfl⟩
    exact List.mem_zipIdx_iff_getElem?.mpr hentry
  rw [planDiffs, List.countP_append, hlocal, hcount, Nat.zero_add]
  exact List.count_eq_one_of_mem staleDiffs_remoteIndex_nodup
    (List.mem_map_of_mem (f := Diff.remoteIndex) hmem)

theorem planDiffs_key_nodup (serializer : Serializer Members) (deleteStale : Bool)
    (hnamed : ∀ command ∈ entries, command.Named)
    (hentries : (entries.map Builder.key).Nodup) (hremote : (remote.map RemoteEntry.key).Nodup) :
    ((planDiffs serializer entries deleteStale remote).map Diff.key).Nodup := by
  have hkeys : (staleDiffs deleteStale entries 0 remote).map Diff.key =
      (((remote.zipIdx 0).filter fun entry => !remoteHasLocal entries entry.1).map
        fun entry => entry.1.key) := by
    simp [staleDiffs, Function.comp_def, staleDiff_key]
  have hsub : List.Sublist ((staleDiffs deleteStale entries 0 remote).map Diff.key)
      (remote.map RemoteEntry.key) := by
    have hall : (remote.zipIdx 0).map (fun entry => entry.1.key) = remote.map RemoteEntry.key := by
      rw [← Function.comp_def RemoteEntry.key Prod.fst, ← List.map_map, List.zipIdx_map_fst]
    rw [hkeys, ← hall]
    exact List.filter_sublist.map _
  rw [planDiffs, List.map_append, List.nodup_append, localDiffs_key]
  refine ⟨hentries, hremote.sublist hsub, ?_⟩
  intro key hkey other hother hsame
  obtain ⟨diff, hdiff, hkey'⟩ := List.mem_map.mp hother
  obtain ⟨index, entry, _, hstale, rfl⟩ := mem_staleDiffs hdiff
  have hlocal : remoteHasLocal entries entry = true := by
    rw [remoteHasLocal_iff hnamed, ← staleDiff_key deleteStale index, hkey', ← hsame]
    exact hkey
  simp [hlocal] at hstale

theorem remoteSet_represents (hremote : (remote.map RemoteEntry.key).Nodup) :
    Represents (remoteSet remote) fun key =>
      ((remoteSet remote).find? fun entry => entry.1 = key).map Prod.snd := by
  refine represents_of_nodup ?_
  rw [remoteSet, List.map_map]
  exact hremote

theorem localSet_nodup (serializer : Serializer Members)
    (hentries : (entries.map Builder.key).Nodup) :
    ((localSet serializer entries).map Prod.fst).Nodup := by
  rw [localSet, List.map_map]
  exact hentries

theorem value_of_mem_remote (hf : Represents (remoteSet remote) f) (hentry : entry ∈ remote) :
    f entry.key = some (remoteJson entry) :=
  (hf.mem_iff _ _).mp (List.mem_map.mpr ⟨entry, hentry, rfl⟩)

theorem planDiffs_fits (hnamed : ∀ command ∈ entries, command.Named)
    (hf : Represents (remoteSet remote) f) {diff : Diff}
    (hdiff : diff ∈ planDiffs serializer entries deleteStale remote) : diff.Fits f := by
  rcases List.mem_append.mp hdiff with hlocal | hstale
  · obtain ⟨index, command, hcommand, rfl⟩ := mem_localDiffs hlocal
    have hmem : command ∈ entries := List.mem_of_getElem? hcommand
    rw [Diff.Fits, localDiff_key]
    rcases localDiff_cases remote (hnamed command hmem) index
      (serializer.text command) with ⟨haction, _, hfree⟩ | ⟨found, entry, hentry, hkey, _, _, haction⟩
    · refine ⟨?_, by simp [haction]⟩
      intro _
      by_contra hne
      obtain ⟨pair, hpair, hkey⟩ := List.mem_map.mp (hf.key_mem.mpr hne)
      obtain ⟨entry, hentry, rfl⟩ := List.mem_map.mp hpair
      exact hfree entry hentry hkey
    · refine ⟨?_, ?_⟩
      · rw [haction]
        split <;> simp
      · intro _
        rw [← hkey, value_of_mem_remote hf (List.mem_of_getElem? hentry)]
        simp
  · obtain ⟨index, entry, _, _, rfl⟩ := mem_staleDiffs hstale
    cases deleteStale <;> simp [Diff.Fits, staleDiff]

theorem localDiff_outcome (hnamed : command.Named)
    (hf : Represents (remoteSet remote) f) (index : Nat)
    (json : Bytes) : (localDiff remote index command json).outcome f = some (some json) := by
  rcases localDiff_cases remote hnamed index json with
    ⟨haction, _, _⟩ | ⟨found, entry, hentry, hkey, _, _, haction⟩
  · simp [Diff.outcome, haction]
  · by_cases hsame : remoteJson entry = some json
    · rw [if_pos hsame] at haction
      have hvalue := value_of_mem_remote hf (List.mem_of_getElem? hentry)
      simp only [Diff.outcome, haction, localDiff_key]
      rw [← hkey, hvalue, hsame]
    · rw [if_neg hsame] at haction
      simp [Diff.outcome, haction]

theorem exists_planDiff_key (serializer : Serializer Members) (deleteStale : Bool)
    (remote : List RemoteEntry) (hnamed : ∀ command ∈ entries, command.Named) {key : Key}
    (hkey : key ∈ entries.map Builder.key ∨ key ∈ remote.map RemoteEntry.key) :
    ∃ diff ∈ planDiffs serializer entries deleteStale remote, diff.key = key := by
  by_cases hlocal : key ∈ entries.map Builder.key
  · rw [← localDiffs_key serializer remote 0] at hlocal
    obtain ⟨diff, hdiff, hdiffKey⟩ := List.mem_map.mp hlocal
    exact ⟨diff, List.mem_append_left _ hdiff, hdiffKey⟩
  · obtain ⟨entry, hentry, rfl⟩ := List.mem_map.mp (hkey.resolve_left hlocal)
    have hstale : remoteHasLocal entries entry = false := by
      rw [← Bool.not_eq_true, remoteHasLocal_iff hnamed]
      exact hlocal
    obtain ⟨index, hindex⟩ := List.mem_iff_getElem?.mp hentry
    refine ⟨staleDiff deleteStale index entry, List.mem_append_right _ ?_, rfl⟩
    exact List.mem_map.mpr ⟨(entry, index), List.mem_filter.mpr
      ⟨List.mem_zipIdx_iff_getElem?.mpr hindex, by simpa using hstale⟩, rfl⟩

section

variable (hnamed : ∀ command ∈ entries, command.Named)
include hnamed

theorem planDiffs_apply (hentries : (entries.map Builder.key).Nodup)
    (hremote : (remote.map RemoteEntry.key).Nodup) :
    List.Perm ((planDiffs serializer entries true remote).foldl applyDiff (remoteSet remote))
      (localSet serializer entries) := by
  have hf := remoteSet_represents hremote
  have hkeys := planDiffs_key_nodup serializer true hnamed
    hentries hremote
  have happlied := applyDiffs_represents hf hkeys fun diff hdiff => planDiffs_fits hnamed hf hdiff
  refine happlied.perm ⟨localSet_nodup serializer hentries, ?_⟩
  intro key value
  cases hfind : (planDiffs serializer entries true remote).find? fun diff => diff.key = key with
  | none =>
    have hno : ∀ diff ∈ planDiffs serializer entries true remote, diff.key ≠ key := by
      intro diff hdiff
      simpa using (List.find?_eq_none.mp hfind) diff hdiff
    have hnotLocal : (key, value) ∉ localSet serializer entries := by
      intro hmem
      obtain ⟨command, hcommand, heq⟩ := List.mem_map.mp hmem
      obtain ⟨diff, hdiff, hkey⟩ := exists_planDiff_key serializer true remote hnamed
        (.inl (List.mem_map.mpr ⟨command, hcommand, congrArg Prod.fst heq⟩))
      exact hno diff hdiff hkey
    have hnotRemote : (key, value) ∉ remoteSet remote := by
      intro hmem
      obtain ⟨entry, hentry, heq⟩ := List.mem_map.mp hmem
      obtain ⟨diff, hdiff, hkey⟩ := exists_planDiff_key serializer true remote hnamed
        (.inr (List.mem_map.mpr ⟨entry, hentry, congrArg Prod.fst heq⟩))
      exact hno diff hdiff hkey
    exact iff_of_false hnotLocal fun hsome => hnotRemote ((hf.mem_iff key value).mpr hsome)
  | some diff =>
    have hdiffKey : diff.key = key := by simpa using List.find?_some hfind
    rcases List.mem_append.mp (List.mem_of_find?_eq_some hfind) with hlocal | hstale
    · obtain ⟨index, command, hcommand, rfl⟩ := mem_localDiffs hlocal
      have hmem : command ∈ entries := List.mem_of_getElem? hcommand
      have hset : (key, some (serializer.text command)) ∈ localSet serializer entries := by
        refine List.mem_map.mpr ⟨command, hmem, ?_⟩
        rw [← hdiffKey, localDiff_key]
      have hlocalSet := represents_of_nodup (localSet_nodup serializer hentries)
      simp only [localDiff_outcome (hnamed command hmem) hf]
      rw [hlocalSet.mem_iff, (hlocalSet.mem_iff _ _).mp hset]
    · obtain ⟨index, entry, _, hnone, rfl⟩ := mem_staleDiffs hstale
      have hnotLocal : (key, value) ∉ localSet serializer entries := by
        intro hmem
        obtain ⟨command, hcommand, heq⟩ := List.mem_map.mp hmem
        have hlocal : remoteHasLocal entries entry = true := by
          rw [remoteHasLocal_iff hnamed, ← staleDiff_key true index, hdiffKey]
          exact List.mem_map.mpr ⟨command, hcommand, congrArg Prod.fst heq⟩
        simp [hlocal] at hnone
      exact iff_of_false hnotLocal (by simp [Diff.outcome, staleDiff])

/-- The remote commands with their ids. -/
def serverSet (remote : List RemoteEntry) : List (UInt64 × Key × Option Bytes) :=
  remote.map fun entry => (remoteId entry, entry.key, remoteJson entry)

theorem planDiffs_target {diff : Diff}
    (hdiff : diff ∈ planDiffs serializer entries deleteStale remote)
    (haction : diff.action = .update ∨ diff.action = .deleteStale) :
    ∃ entry ∈ remote, diff.remoteId = remoteId entry ∧ diff.key = entry.key := by
  rcases List.mem_append.mp hdiff with hlocal | hstale
  · obtain ⟨index, command, hcommand, rfl⟩ := mem_localDiffs hlocal
    have hmem : command ∈ entries := List.mem_of_getElem? hcommand
    rcases localDiff_cases remote (hnamed command hmem) index
      (serializer.text command) with ⟨hcreate, _⟩ | ⟨found, entry, hentry, hkey, _, hid, _⟩
    · simp [hcreate] at haction
    · refine ⟨entry, List.mem_of_getElem? hentry, hid, ?_⟩
      rw [localDiff_key, hkey]
  · obtain ⟨index, entry, hentry, _, rfl⟩ := mem_staleDiffs hstale
    exact ⟨entry, List.mem_of_getElem? hentry, rfl, rfl⟩

theorem planDiffs_agrees (hids : (remote.map remoteId).Nodup)
    (hremote : (remote.map RemoteEntry.key).Nodup)
    {diff : Diff} (hdiff : diff ∈ planDiffs serializer entries deleteStale remote) :
    diff.Agrees (serverSet remote) := by
  intro haction stored hstored
  obtain ⟨entry, hentry, hid, hkey⟩ := planDiffs_target hnamed hdiff haction
  obtain ⟨other, hother, rfl⟩ := List.mem_map.mp hstored
  rw [hid, hkey]
  constructor
  · intro hsame
    rw [List.inj_on_of_nodup_map hids hother hentry hsame]
  · intro hsame
    rw [List.inj_on_of_nodup_map hremote hother hentry hsame]

theorem planDiffs_applyById (hentries : (entries.map Builder.key).Nodup)
    (hids : (remote.map remoteId).Nodup)
    (hremote : (remote.map RemoteEntry.key).Nodup)
    (hnew : ∀ diff, ∀ entry ∈ remote, newId diff ≠ remoteId entry) :
    List.Perm (((planDiffs serializer entries true remote).foldl (applyById newId)
      (serverSet remote)).map Prod.snd) (localSet serializer entries) := by
  have hset : (serverSet remote).map Prod.snd = remoteSet remote := by
    simp [serverSet, remoteSet]
  rw [foldl_applyById (fun diff hdiff => planDiffs_agrees hnamed hids hremote hdiff)
    (planDiffs_key_nodup serializer true hnamed hentries hremote), hset]
  · exact planDiffs_apply hnamed hentries hremote
  · intro diff _ other hother haction
    obtain ⟨entry, hentry, hid, _⟩ := planDiffs_target hnamed hother haction
    rw [hid]
    exact hnew diff entry hentry

end

end Whole

theorem sum_count_action (actions : List Action) :
    actions.count .create + actions.count .update + actions.count .deleteStale +
      actions.count .noop = actions.length := by
  induction actions with
  | nil => rfl
  | cons action rest ih => cases action <;> simp <;> omega

/-- **A plan is complete.**  Every local command has one diff, a create, an update or a
no-op; every remote command that no local one names has one, a deletion or, with deletion
off, a no-op; the counters add up to the number of diffs.  With deletion on and distinct
remote keys, carrying out the actions turns the remote commands into the local ones, and so
do the requests, which go by the remote ids. -/
theorem plan_complete (registry : Registry Members) (serializer : Serializer Members)
    (memory : Nat → PushMemory) (options : Option Options) (remote : List RemoteEntry)
    {plan : Plan} (h : buildPlan registry serializer memory options remote = .ok plan) :
    (∀ index command, registry.entries[index]? = some command →
      (plan.diffs.countP fun diff => diff.localIndex = some index) = 1 ∧
      ∀ diff ∈ plan.diffs, diff.localIndex = some index → diff.key = command.key ∧
        (diff.action = .create ∨ diff.action = .update ∨ diff.action = .noop)) ∧
    (∀ index entry, remote[index]? = some entry → entry.key ∉ registry.entries.map Builder.key →
      (plan.diffs.countP fun diff => diff.remoteIndex = some index) = 1 ∧
      ∀ diff ∈ plan.diffs, diff.remoteIndex = some index → diff.key = entry.key ∧
        diff.action = if optionsDeleteStale options then .deleteStale else .noop) ∧
    plan.diffs.length = registry.entries.length +
      (remote.filter fun entry => !remoteHasLocal registry.entries entry).length ∧
    plan.createCount + plan.updateCount + plan.deleteStaleCount + plan.noopCount =
      plan.diffs.length ∧
    (optionsDeleteStale options = true → (remote.map RemoteEntry.key).Nodup →
      List.Perm (plan.diffs.foldl applyDiff (remoteSet remote))
        (localSet serializer registry.entries) ∧
      ∀ newId : Diff → UInt64, (remote.map remoteId).Nodup →
        (∀ diff, ∀ entry ∈ remote, newId diff ≠ remoteId entry) →
        List.Perm ((plan.diffs.foldl (applyById newId) (serverSet remote)).map Prod.snd)
          (localSet serializer registry.entries)) := by
  obtain ⟨hdiffs, _, _, hcounted⟩ := buildPlan_ok h
  have hplan : plan.diffs =
      planDiffs serializer registry.entries (optionsDeleteStale options) remote := hdiffs
  have hnamed := registry.named
  refine ⟨?_, ?_, ?_, ?_, ?_⟩
  · intro index command hcommand
    obtain ⟨hlt, _⟩ := List.getElem?_eq_some_iff.mp hcommand
    refine ⟨by rw [hplan]; exact planDiffs_local_once hlt, ?_⟩
    intro diff hdiff hindex
    rcases List.mem_append.mp (hplan ▸ hdiff) with hlocal | hstale
    · obtain ⟨own, found, hfound, rfl⟩ := mem_localDiffs hlocal
      obtain rfl : own = index := by simpa using hindex
      obtain rfl : found = command := by simpa [hfound] using hcommand
      refine ⟨localDiff_key _ _ _ _, ?_⟩
      rcases localDiff_cases remote (hnamed found (List.mem_of_getElem? hfound)) own
        (serializer.text found) with ⟨haction, _⟩ | ⟨_, entry, _, _, _, _, haction⟩
      · exact .inl haction
      · rw [haction]
        split <;> simp
    · rw [staleDiffs_localIndex hstale] at hindex
      cases hindex
  · intro index entry hentry hkey
    have hstale : remoteHasLocal registry.entries entry = false := by
      rw [← Bool.not_eq_true, remoteHasLocal_iff hnamed]
      exact hkey
    refine ⟨by rw [hplan]; exact planDiffs_stale_once hnamed hentry hstale, ?_⟩
    intro diff hdiff hindex
    rcases List.mem_append.mp (hplan ▸ hdiff) with hlocal | hmem
    · exact absurd hindex (localDiffs_remoteIndex hnamed hentry hstale hlocal)
    · obtain ⟨own, other, hother, _, rfl⟩ := mem_staleDiffs hmem
      obtain rfl : own = index := by simpa [staleDiff] using hindex
      obtain rfl : other = entry := by simpa [hother] using hentry
      exact ⟨rfl, rfl⟩
  · rw [hplan, planDiffs, List.length_append, localDiffs, staleDiffs, List.length_map,
      List.length_map, List.length_zipIdx, ← List.countP_eq_length_filter,
      ← List.countP_eq_length_filter]
    congr 1
    nth_rewrite 2 [← List.zipIdx_map_fst 0 remote]
    rw [List.countP_map]
    rfl
  · have hcreate := hcounted.counters .create
    have hupdate := hcounted.counters .update
    have hdelete := hcounted.counters .deleteStale
    have hnoop := hcounted.counters .noop
    simp only [Plan.counter] at hcreate hupdate hdelete hnoop
    rw [hcreate, hupdate, hdelete, hnoop, sum_count_action, List.length_map]
  · intro hdelete hremote
    rw [hplan, hdelete]
    refine ⟨planDiffs_apply hnamed registry.unique hremote, ?_⟩
    intro newId hids hnew
    exact planDiffs_applyById hnamed registry.unique hids hremote hnew

/-- A serializer that writes the name. -/
def nameSerializer : Serializer Unit where
  membersValid _ := true
  buildJson command := .ok (command.name.getD [])

/-- The registry with the commands `a` and `b`. -/
def twoCommands : Registry Unit :=
  ((Registry.init.add nameSerializer true ⟨some [97], none, ()⟩).1.add nameSerializer true
    ⟨some [98], some 2, ()⟩).1

/-- A remote `a` with another text, and a command `c` that is gone. -/
def oldRemote : List RemoteEntry :=
  [⟨40, 7, some [97], 1, some [0]⟩, ⟨40, 8, some [99], 1, some [99]⟩]

theorem plan_complete_twoCommands :
    ∃ plan, buildPlan twoCommands nameSerializer (fun _ => ⟨true, true⟩)
        (some ⟨40, 1, none, some 1, none⟩) oldRemote = .ok plan ∧
      plan.createCount + plan.updateCount + plan.deleteStaleCount + plan.noopCount =
        plan.diffs.length ∧
      List.Perm (plan.diffs.foldl applyDiff (remoteSet oldRemote))
        (localSet nameSerializer twoCommands.entries) := by
  refine ⟨_, rfl, ?_⟩
  obtain ⟨_, _, _, hsum, happly⟩ := plan_complete twoCommands nameSerializer
    (fun _ => ⟨true, true⟩) (some ⟨40, 1, none, some 1, none⟩) oldRemote rfl
  exact ⟨hsum, (happly (by decide) (by decide)).1⟩

end Dcc.Commands
