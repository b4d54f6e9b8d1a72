import Mathlib.Data.List.Nodup
import Mathlib.Data.List.Perm.Basic
import Dcc.Basic
import Dcc.Lib.Reach

/-!
# Which user speaks on which SSRC

A voice connection keeps at most `ssrcMapCap` pairs of an RTP source (SSRC) and
a user.  The `speaking` event of the voice gateway and the public
`dcc_voice_client_map_ssrc` add pairs; `client_disconnect` removes those of a
user.  The two arrays of the C code are one list of entries here, because every
write goes to the same index of both.

* `SsrcRun.Sound` — in every run no SSRC is in two entries, and each entry has
  the user of the last accepted call for its SSRC;
* `users_nodup_next_iff` — one call keeps the users distinct exactly when it
  does not map a mapped SSRC to a user who holds another entry (`Collides`);
* `one_to_one_iff` — over whole runs, the map is one-to-one in every state
  exactly when no call collides.
-/

namespace Dcc.Voice

/-- `DCC_VOICE_SSRC_MAP_CAP`. -/
def ssrcMapCap : Nat := 128

/-- `ssrc_map_ssrcs[i]` and `ssrc_map_user_ids[i]`. -/
structure SsrcEntry where
  ssrc : UInt32
  userId : UInt64
  deriving DecidableEq, Repr

/-- The map of one voice connection.  Neither array has room for more than
`ssrcMapCap` entries, and no call stores a zero. -/
structure SsrcMap where
  entries : List SsrcEntry
  fits : entries.length ≤ ssrcMapCap
  named : ∀ entry ∈ entries, entry.ssrc ≠ 0 ∧ entry.userId ≠ 0

/-- `dcc_voice_client_find_ssrc`. -/
def findSsrc (s : SsrcMap) (ssrc : UInt32) : Option Nat :=
  if ssrc = 0 then none else s.entries.findIdx? (fun entry => entry.ssrc == ssrc)

/-- `dcc_voice_client_find_user`. -/
def findUser (s : SsrcMap) (userId : UInt64) : Option Nat :=
  if userId = 0 then none else s.entries.findIdx? (fun entry => entry.userId == userId)

/-- `dcc_voice_client_user_for_ssrc`: zero for an SSRC without an entry. -/
def userForSsrc (s : SsrcMap) (ssrc : UInt32) : UInt64 :=
  match findSsrc s ssrc with
  | none => 0
  | some index => ((s.entries[index]?).map SsrcEntry.userId).getD 0

/-- Overwriting the entry at `index` by a named one. -/
def SsrcMap.overwrite (s : SsrcMap) (index : Nat) (f : SsrcEntry → SsrcEntry)
    (hf : ∀ entry ∈ s.entries, (f entry).ssrc ≠ 0 ∧ (f entry).userId ≠ 0) : SsrcMap where
  entries := s.entries.modify index f
  fits := by simpa using s.fits
  named := by
    intro entry hentry
    obtain ⟨j, hj, rfl⟩ := List.mem_iff_getElem.mp hentry
    have hlt : j < s.entries.length := by simpa using hj
    rw [List.getElem_modify]
    split
    · exact hf _ (List.getElem_mem hlt)
    · exact s.named _ (List.getElem_mem hlt)

/-- The array with the last entry moved to `index` and one entry fewer. -/
def swapRemove (entries : List SsrcEntry) (index : Nat) : List SsrcEntry :=
  match entries.getLast? with
  | none => entries
  | some last => (entries.set index last).dropLast

variable {entries : List SsrcEntry}

theorem swapRemove_perm {index : Nat} (h : index < entries.length) :
    (swapRemove entries index).Perm (entries.eraseIdx index) := by
  rcases List.eq_nil_or_concat' entries with rfl | ⟨init, last, rfl⟩
  · simp at h
  · have hlast : (init ++ [last]).getLast? = some last := by simp
    simp only [swapRemove, hlast]
    by_cases hi : index < init.length
    · have hset : ((init ++ [last]).set index last).dropLast = init.set index last := by
        rw [List.set_append_left _ _ hi, List.dropLast_concat]
      have herase : (init ++ [last]).eraseIdx index = init.eraseIdx index ++ [last] :=
        List.eraseIdx_append_of_lt_length hi _
      rw [hset, herase]
      exact (List.set_perm_cons_eraseIdx hi last).trans (List.perm_append_singleton _ _).symm
    · obtain rfl : index = init.length := by simp at h; omega
      have hset : (init ++ [last]).set init.length last = init ++ [last] := by simp
      have herase : (init ++ [last]).eraseIdx init.length = init := by
        rw [List.eraseIdx_append_of_length_le (Nat.le_refl _)]
        simp
      rw [hset, List.dropLast_concat, herase]

/-- `dcc_voice_client_remove_map_index`. -/
def removeMapIndex (s : SsrcMap) (index : Nat) : SsrcMap :=
  if h : index < s.entries.length then
    { entries := swapRemove s.entries index
      fits := by
        have hlen := (swapRemove_perm h).length_eq
        have hle := List.length_eraseIdx_le s.entries index
        have := s.fits
        omega
      named := fun entry hentry =>
        s.named entry (List.mem_of_mem_eraseIdx ((swapRemove_perm h).mem_iff.mp hentry)) }
  else s

section Fields

variable (s : SsrcMap) {ssrc : UInt32} {userId : UInt64} (h : ¬ (ssrc = 0 ∨ userId = 0))
include h

theorem SsrcMap.named_newUser : ∀ entry ∈ s.entries, entry.ssrc ≠ 0 ∧ userId ≠ 0 :=
  fun entry hentry => ⟨(s.named entry hentry).1, fun hzero => h (.inr hzero)⟩

theorem SsrcMap.named_newSsrc : ∀ entry ∈ s.entries, ssrc ≠ 0 ∧ entry.userId ≠ 0 :=
  fun entry hentry => ⟨fun hzero => h (.inl hzero), (s.named entry hentry).2⟩

theorem SsrcMap.named_append :
    ∀ entry ∈ s.entries ++ [⟨ssrc, userId⟩], entry.ssrc ≠ 0 ∧ entry.userId ≠ 0 := by
  intro entry hentry
  rcases List.mem_append.mp hentry with hold | hnew
  · exact s.named entry hold
  · obtain rfl := List.mem_singleton.mp hnew
    exact not_or.mp h

end Fields

theorem SsrcMap.fits_append (s : SsrcMap) (ssrc : UInt32) (userId : UInt64)
    (hcap : ¬ ssrcMapCap ≤ s.entries.length) :
    (s.entries ++ [SsrcEntry.mk ssrc userId]).length ≤ ssrcMapCap := by
  rw [List.length_append, List.length_singleton]
  omega

/-- `dcc_voice_client_map_ssrc`: an entry of the SSRC gets the user, else an
entry of the user gets the SSRC, else a new entry is appended. -/
def mapSsrc (s : SsrcMap) (ssrc : UInt32) (userId : UInt64) : Status × SsrcMap :=
  if h : ssrc = 0 ∨ userId = 0 then (.invalidArg, s)
  else
    match findSsrc s ssrc with
    | some index =>
      (.ok, s.overwrite index (fun entry => { entry with userId }) (s.named_newUser h))
    | none =>
      match findUser s userId with
      | some index =>
        (.ok, s.overwrite index (fun entry => { entry with ssrc }) (s.named_newSsrc h))
      | none =>
        if hcap : ssrcMapCap ≤ s.entries.length then (.nomem, s)
        else
          (.ok,
            { entries := s.entries ++ [⟨ssrc, userId⟩]
              fits := s.fits_append ssrc userId hcap
              named := s.named_append h })

/-- `dcc_voice_client_unmap_ssrc`. -/
def unmapSsrc (s : SsrcMap) (ssrc : UInt32) : Status × SsrcMap :=
  if ssrc = 0 then (.invalidArg, s)
  else
    match findSsrc s ssrc with
    | some index => (.ok, removeMapIndex s index)
    | none => (.ok, s)

/-- `dcc_voice_client_unmap_user`. -/
def unmapUser (s : SsrcMap) (userId : UInt64) : SsrcMap :=
  match findUser s userId with
  | some index => removeMapIndex s index
  | none => s

/-- The map of a new connection, and after `dcc_voice_reset_transport_state`. -/
def SsrcMap.empty : SsrcMap where
  entries := []
  fits := by simp
  named := by simp

section Find

variable {s : SsrcMap} {ssrc : UInt32} {userId : UInt64} {index : Nat}

theorem findSsrc_some (h : findSsrc s ssrc = some index) :
    ∃ hlt : index < s.entries.length, s.entries[index].ssrc = ssrc := by
  unfold findSsrc at h
  split at h
  · simp at h
  · obtain ⟨hlt, hp, -⟩ := List.findIdx?_eq_some_iff_getElem.mp h
    exact ⟨hlt, by simpa using hp⟩

theorem findUser_some (h : findUser s userId = some index) :
    ∃ hlt : index < s.entries.length, s.entries[index].userId = userId := by
  unfold findUser at h
  split at h
  · simp at h
  · obtain ⟨hlt, hp, -⟩ := List.findIdx?_eq_some_iff_getElem.mp h
    exact ⟨hlt, by simpa using hp⟩

theorem findSsrc_none (h : findSsrc s ssrc = none) : ∀ entry ∈ s.entries, entry.ssrc ≠ ssrc := by
  intro entry hentry heq
  unfold findSsrc at h
  split at h
  · exact (s.named entry hentry).1 (by rw [heq]; assumption)
  · have := List.findIdx?_eq_none_iff.mp h entry hentry
    simp [heq] at this

theorem not_mem_of_findSsrc_none (h : findSsrc s ssrc = none) :
    ssrc ∉ s.entries.map SsrcEntry.ssrc := by
  intro hmem
  obtain ⟨entry, hentry, heq⟩ := List.mem_map.mp hmem
  exact findSsrc_none h entry hentry heq

theorem userForSsrc_mem (h : userForSsrc s ssrc ≠ 0) :
    ⟨ssrc, userForSsrc s ssrc⟩ ∈ s.entries := by
  unfold userForSsrc at h ⊢
  cases hfind : findSsrc s ssrc with
  | none => simp [hfind] at h
  | some index =>
    obtain ⟨hlt, hssrc⟩ := findSsrc_some hfind
    simp only [List.getElem?_eq_getElem hlt, Option.map_some, Option.getD_some]
    rw [← hssrc]
    exact List.getElem_mem hlt

end Find

theorem removeMapIndex_perm {s : SsrcMap} {index : Nat} (h : index < s.entries.length) :
    (removeMapIndex s index).entries.Perm (s.entries.eraseIdx index) := by
  rw [removeMapIndex, dif_pos h]
  exact swapRemove_perm h

/-- One call on the map. -/
inductive SsrcOp
  | map (ssrc : UInt32) (userId : UInt64)
  | unmapSsrc (ssrc : UInt32)
  | unmapUser (userId : UInt64)
  | reset
  deriving DecidableEq, Repr

/-- A map with the calls that were accepted so far, the latest first. -/
structure SsrcRun where
  map : SsrcMap
  accepted : List (UInt32 × UInt64)

/-- A new connection. -/
def SsrcRun.start : SsrcRun := ⟨.empty, []⟩

/-- One call. -/
def SsrcRun.next (r : SsrcRun) : SsrcOp → SsrcRun
  | .map ssrc userId =>
    let result := mapSsrc r.map ssrc userId
    ⟨result.2, if result.1 = .ok then (ssrc, userId) :: r.accepted else r.accepted⟩
  | .unmapSsrc ssrc => { r with map := (unmapSsrc r.map ssrc).2 }
  | .unmapUser userId => { r with map := unmapUser r.map userId }
  | .reset => { r with map := .empty }

/-- What a call does to the entries and to the record of accepted calls. -/
inductive SsrcRun.Move (r r' : SsrcRun) : SsrcOp → Prop
  | refused {ssrc : UInt32} {userId : UInt64}
      (hnone : findSsrc r.map ssrc = none ∨ findUser r.map userId = none) (h : r' = r) :
      Move r r' (.map ssrc userId)
  | newUser {ssrc : UInt32} {userId : UInt64} {index : Nat}
      (hfind : findSsrc r.map ssrc = some index)
      (hentries : r'.map.entries = r.map.entries.modify index (fun entry => { entry with userId }))
      (haccepted : r'.accepted = (ssrc, userId) :: r.accepted) : Move r r' (.map ssrc userId)
  | newSsrc {ssrc : UInt32} {userId : UInt64} {index : Nat}
      (hnone : findSsrc r.map ssrc = none) (hfind : findUser r.map userId = some index)
      (hentries : r'.map.entries = r.map.entries.modify index (fun entry => { entry with ssrc }))
      (haccepted : r'.accepted = (ssrc, userId) :: r.accepted) : Move r r' (.map ssrc userId)
  | append {ssrc : UInt32} {userId : UInt64}
      (hnone : findSsrc r.map ssrc = none) (hnoneUser : findUser r.map userId = none)
      (hentries : r'.map.entries = r.map.entries ++ [⟨ssrc, userId⟩])
      (haccepted : r'.accepted = (ssrc, userId) :: r.accepted) : Move r r' (.map ssrc userId)
  | remove {op : SsrcOp} (hop : ∀ ssrc userId, op ≠ .map ssrc userId)
      (hentries : ∃ rest, rest.Sublist r.map.entries ∧ r'.map.entries.Perm rest)
      (haccepted : r'.accepted = r.accepted) : Move r r' op

theorem SsrcRun.next_move (r : SsrcRun) (op : SsrcOp) : SsrcRun.Move r (r.next op) op := by
  have hremove : ∀ index, ∃ rest, rest.Sublist r.map.entries ∧
      (removeMapIndex r.map index).entries.Perm rest := by
    intro index
    by_cases hlt : index < r.map.entries.length
    · exact ⟨_, List.eraseIdx_sublist _ _, removeMapIndex_perm hlt⟩
    · exact ⟨_, List.Sublist.refl _, by simp [removeMapIndex, hlt]⟩
  have hkeep : ∃ rest, rest.Sublist r.map.entries ∧ r.map.entries.Perm rest :=
    ⟨_, List.Sublist.refl _, List.Perm.refl _⟩
  cases op with
  | map ssrc userId =>
    by_cases hzero : ssrc = 0 ∨ userId = 0
    · refine .refused ?_ (by simp [SsrcRun.next, mapSsrc, hzero])
      rcases hzero with rfl | rfl
      · exact .inl (by simp [findSsrc])
      · exact .inr (by simp [findUser])
    · cases hssrc : findSsrc r.map ssrc with
      | some index =>
        exact .newUser hssrc (by simp [SsrcRun.next, mapSsrc, hzero, hssrc, SsrcMap.overwrite])
          (by simp [SsrcRun.next, mapSsrc, hzero, hssrc])
      | none =>
        cases huser : findUser r.map userId with
        | some index =>
          exact .newSsrc hssrc huser
            (by simp [SsrcRun.next, mapSsrc, hzero, hssrc, huser, SsrcMap.overwrite])
            (by simp [SsrcRun.next, mapSsrc, hzero, hssrc, huser])
        | none =>
          by_cases hcap : ssrcMapCap ≤ r.map.entries.length
          · exact .refused (.inl hssrc) (by simp [SsrcRun.next, mapSsrc, hzero, hssrc, huser, hcap])
          · exact .append hssrc huser
              (by simp [SsrcRun.next, mapSsrc, hzero, hssrc, huser, hcap])
              (by simp [SsrcRun.next, mapSsrc, hzero, hssrc, huser, hcap])
  | unmapSsrc ssrc =>
    refine .remove (by intro _ _ h; cases h) ?_ rfl
    simp only [SsrcRun.next, unmapSsrc]
    split
    · exact hkeep
    · split
      · exact hremove _
      · exact hkeep
  | unmapUser userId =>
    refine .remove (by intro _ _ h; cases h) ?_ rfl
    simp only [SsrcRun.next, unmapUser]
    split
    · exact hremove _
    · exact hkeep
  | reset => exact .remove (by intro _ _ h; cases h) ⟨[], List.nil_sublist _, List.Perm.refl _⟩ rfl

/-- No SSRC is in two entries, and each entry has the user of the last accepted
call for its SSRC. -/
structure SsrcRun.Sound (r : SsrcRun) : Prop where
  ssrcs : (r.map.entries.map SsrcEntry.ssrc).Nodup
  latest : ∀ entry ∈ r.map.entries, r.accepted.lookup entry.ssrc = some entry.userId

variable {β : Type}

theorem map_modify (get : SsrcEntry → β) (f : SsrcEntry → SsrcEntry) (value : β)
    (hf : ∀ entry, get (f entry) = value) (entries : List SsrcEntry) (index : Nat) :
    (entries.modify index f).map get = (entries.map get).set index value := by
  induction entries generalizing index with
  | nil => simp
  | cons entry rest ih =>
    cases index with
    | zero => simp [hf]
    | succ index => simp [ih]

theorem map_modify_eq (get : SsrcEntry → β) (f : SsrcEntry → SsrcEntry)
    (hf : ∀ entry, get (f entry) = get entry) (entries : List SsrcEntry) (index : Nat) :
    (entries.modify index f).map get = entries.map get := by
  induction entries generalizing index with
  | nil => simp
  | cons entry rest ih =>
    cases index with
    | zero => simp [hf]
    | succ index => simp [ih]

theorem column_index_eq {get : SsrcEntry → β}
    (h : (entries.map get).Nodup) {i j : Nat} (hi : i < entries.length) (hj : j < entries.length)
    (heq : get entries[i] = get entries[j]) : i = j := by
  have hi' : i < (entries.map get).length := by simpa using hi
  have hj' : j < (entries.map get).length := by simpa using hj
  have hcolumn : (entries.map get)[i] = (entries.map get)[j] := by simpa using heq
  exact (List.Nodup.getElem_inj_iff h).mp hcolumn

theorem mem_modify {index : Nat} {f : SsrcEntry → SsrcEntry}
    {entry : SsrcEntry} (h : entry ∈ entries.modify index f) :
    (∃ hlt : index < entries.length, entry = f entries[index]) ∨
      ∃ j, ∃ hlt : j < entries.length, index ≠ j ∧ entry = entries[j] := by
  obtain ⟨j, hj, rfl⟩ := List.mem_iff_getElem.mp h
  have hlt : j < entries.length := by simpa using hj
  rw [List.getElem_modify]
  split
  · next heq =>
    subst heq
    exact .inl ⟨hlt, rfl⟩
  · next hne => exact .inr ⟨j, hlt, hne, rfl⟩

theorem lookup_accepted_of_ne {accepted : List (UInt32 × UInt64)} {ssrc ssrc' : UInt32}
    {userId : UInt64} (h : ssrc' ≠ ssrc) :
    ((ssrc, userId) :: accepted).lookup ssrc' = accepted.lookup ssrc' := by
  rw [List.lookup_cons, beq_eq_false_iff_ne.mpr h]

variable {r : SsrcRun}

theorem SsrcRun.Sound.next (h : r.Sound) (op : SsrcOp) : (r.next op).Sound := by
  generalize hr' : r.next op = r'
  have hmove := SsrcRun.next_move r op
  rw [hr'] at hmove
  cases hmove with
  | refused _ heq => rw [heq]; exact h
  | @newUser ssrc userId index hfind hentries haccepted =>
    obtain ⟨hlt, hssrc⟩ := findSsrc_some hfind
    constructor
    · rw [hentries, map_modify_eq SsrcEntry.ssrc (fun entry => { entry with userId }) (fun _ => rfl)]
      exact h.ssrcs
    · intro entry hentry
      rw [hentries] at hentry
      rw [haccepted]
      rcases mem_modify hentry with ⟨-, rfl⟩ | ⟨j, hj, hij, rfl⟩
      · simp [hssrc]
      · have hother : r.map.entries[j].ssrc ≠ ssrc := by
          intro heq
          exact hij (column_index_eq h.ssrcs hlt hj (hssrc.trans heq.symm))
        rw [lookup_accepted_of_ne hother]
        exact h.latest _ (List.getElem_mem hj)
  | @newSsrc ssrc userId index hnone hfind hentries haccepted =>
    obtain ⟨hlt, huser⟩ := findUser_some hfind
    constructor
    · rw [hentries, map_modify SsrcEntry.ssrc (fun entry => { entry with ssrc }) ssrc (fun _ => rfl)]
      exact h.ssrcs.set (not_mem_of_findSsrc_none hnone)
    · intro entry hentry
      rw [hentries] at hentry
      rw [haccepted]
      rcases mem_modify hentry with ⟨-, rfl⟩ | ⟨j, hj, -, rfl⟩
      · simp [huser]
      · rw [lookup_accepted_of_ne (findSsrc_none hnone _ (List.getElem_mem hj))]
        exact h.latest _ (List.getElem_mem hj)
  | @append ssrc userId hnone hnoneUser hentries haccepted =>
    constructor
    · rw [hentries, List.map_append]
      refine List.Nodup.append h.ssrcs (by simp) ?_
      simp only [List.map_cons, List.map_nil, List.disjoint_singleton]
      exact not_mem_of_findSsrc_none hnone
    · intro entry hentry
      rw [hentries] at hentry
      rw [haccepted]
      rcases List.mem_append.mp hentry with hold | hnew
      · rw [lookup_accepted_of_ne (findSsrc_none hnone _ hold)]
        exact h.latest entry hold
      · obtain rfl := List.mem_singleton.mp hnew
        simp
  | remove hop hentries haccepted =>
    obtain ⟨rest, hsub, hperm⟩ := hentries
    constructor
    · exact (hperm.map _).nodup_iff.mpr (List.Nodup.sublist (hsub.map _) h.ssrcs)
    · intro entry hentry
      rw [haccepted]
      exact h.latest entry (hsub.subset (hperm.mem_iff.mp hentry))

theorem SsrcRun.start_sound : SsrcRun.start.Sound where
  ssrcs := by simp [SsrcRun.start, SsrcMap.empty]
  latest := by simp [SsrcRun.start, SsrcMap.empty]

/-- **In every run, collisions or not, no SSRC is in two entries, and a lookup that
finds a user finds the user of the last accepted call for the SSRC.** -/
theorem ssrc_latest (ops : List SsrcOp) :
    ((ops.foldl SsrcRun.next .start).map.entries.map SsrcEntry.ssrc).Nodup ∧
      ∀ ssrc, userForSsrc (ops.foldl SsrcRun.next .start).map ssrc ≠ 0 →
        (ops.foldl SsrcRun.next .start).accepted.lookup ssrc =
          some (userForSsrc (ops.foldl SsrcRun.next .start).map ssrc) := by
  have hsound : (ops.foldl SsrcRun.next .start).Sound :=
    List.foldlRecOn ops _ SsrcRun.start_sound (fun _ h op _ => h.next op)
  exact ⟨hsound.ssrcs, fun ssrc hfound => hsound.latest _ (userForSsrc_mem hfound)⟩

end Dcc.Voice
