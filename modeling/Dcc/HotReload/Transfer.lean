import Dcc.HotReload.Pairing

/-!
# Result frames over partial reads and writes

A worker writes its result set as a frame: a header, the status with the number of entries, and
each entry with its lengths.  `dcc_hot_reload_worker_write_all_timeout` and
`dcc_hot_reload_worker_read_all_timeout` move the pieces of a frame in as many system calls as it
takes.

* `writeRounds_spec`, `readRounds_spec` — what the two loops come to, however their calls split
  the bytes;
* `run_reading`, `run_delivers` — the same of the programs that call them;
* `frame_read_back` — a frame that was written is read back as the same result set, nothing behind
  it is touched, and nothing above the limits is accepted.
-/

namespace Dcc.HotReload

open Program (Always always_bind always_trivial)

/-! ## One transfer -/

/-- A round of the loop of `dcc_hot_reload_worker_write_all_timeout`. -/
inductive WriteRound
  /-- No time is left, before `poll` or in it. -/
  | expired
  /-- `poll` or `send` is interrupted, or the pipe is full again. -/
  | again
  /-- `poll` or `send` fails, or the other end hung up. -/
  | failed
  /-- `send` takes so many bytes, if it is given as many. -/
  | wrote (count : Nat)

/-- A round of the loop of `dcc_hot_reload_worker_read_all_timeout`, or of
`dcc_hot_reload_worker_read_all` without a time limit. -/
inductive ReadRound
  | expired
  | again
  | failed
  /-- `read` gives so many bytes, if it is asked for as many and there are as many. -/
  | got (count : Nat)

/-- The most that one `send` is given. -/
def writeChunk : Nat := 65536

/-- What a `send` takes of the bytes that are left. -/
def sendSize (count left : Nat) : Nat := min count (min left writeChunk)

/-- What a `read` gives of the bytes that are asked for and of those that there are. -/
def readSize (count size available : Nat) : Nat := min count (min size available)

/-- The loop of `dcc_hot_reload_worker_write_all_timeout`: the reply and the bytes that are in
the pipe; `none` where the rounds do not reach its end. -/
def writeRounds : List WriteRound → Bytes → Option (Except Errno Unit × Bytes)
  | _, [] => some (.ok (), [])
  | [], _ :: _ => none
  | .expired :: _, _ :: _ => some (.error .timedOut, [])
  | .again :: rounds, b :: data => writeRounds rounds (b :: data)
  | .failed :: _, _ :: _ => some (.error .other, [])
  | .wrote count :: rounds, b :: data =>
    if count = 0 then some (.error .other, [])
    else
      (writeRounds rounds ((b :: data).drop (sendSize count (b :: data).length))).map fun r =>
        (r.1, (b :: data).take (sendSize count (b :: data).length) ++ r.2)

/-- `dcc_hot_reload_worker_write_all_timeout`, with what becomes of the flags of the pipe. -/
def writeAll (nonblocking restored : Bool) (rounds : List WriteRound) (data : Bytes) :
    Option (Except Errno Unit × Bytes) :=
  if !nonblocking then some (.error .other, [])
  else
    (writeRounds rounds data).map fun r =>
      match r.1 with
      | .ok () => if restored then r else (.error .other, r.2)
      | .error _ => r

/-- The loop of `dcc_hot_reload_worker_read_all_timeout` for so many bytes: the reply and what
is left in the pipe.  At the end of the pipe `read` gives nothing. -/
def readRounds : List ReadRound → Nat → Bytes → Option (Except Errno Bytes × Bytes)
  | _, 0, input => some (.ok [], input)
  | [], _ + 1, _ => none
  | .expired :: _, _ + 1, input => some (.error .timedOut, input)
  | .again :: rounds, size + 1, input => readRounds rounds (size + 1) input
  | .failed :: _, _ + 1, input => some (.error .other, input)
  | .got count :: rounds, size + 1, input =>
    if readSize count (size + 1) input.length = 0 then some (.error .other, input)
    else
      (readRounds rounds (size + 1 - readSize count (size + 1) input.length)
        (input.drop (readSize count (size + 1) input.length))).map fun r =>
          (r.1.map (input.take (readSize count (size + 1) input.length) ++ ·), r.2)

/-- The round moves bytes, or tries again. -/
def WriteRound.Clean : WriteRound → Prop
  | .again => True
  | .wrote count => count ≠ 0
  | _ => False

def ReadRound.Clean : ReadRound → Prop
  | .again => True
  | .got count => count ≠ 0
  | _ => False

def WriteRound.moves : WriteRound → Bool
  | .wrote _ => true
  | _ => false

def ReadRound.moves : ReadRound → Bool
  | .got _ => true
  | _ => false

variable {rounds : List WriteRound} {reply : Except Errno Unit}

/-- **Partial writes put the data together**, or a part of it where one of them fails. -/
theorem writeRounds_spec {data out : Bytes} (h : writeRounds rounds data = some (reply, out)) :
    (reply = .ok () ∧ out = data) ∨
      (∃ errno, reply = .error errno) ∧ out <+: data ∧ ¬ ∀ round ∈ rounds, round.Clean := by
  fun_induction writeRounds rounds data generalizing out reply with
  | case1 =>
    cases h
    exact .inl ⟨rfl, rfl⟩
  | case2 => cases h
  | case3 =>
    cases h
    exact .inr ⟨⟨_, rfl⟩, List.nil_prefix, fun hall => hall _ List.mem_cons_self⟩
  | case4 rounds b data ih =>
    rcases ih h with hdone | ⟨herror, hpart, hclean⟩
    · exact .inl hdone
    · exact .inr ⟨herror, hpart, fun hall => hclean fun round hmem =>
        hall round (List.mem_cons_of_mem _ hmem)⟩
  | case5 =>
    cases h
    exact .inr ⟨⟨_, rfl⟩, List.nil_prefix, fun hall => hall _ List.mem_cons_self⟩
  | case6 =>
    cases h
    exact .inr ⟨⟨_, rfl⟩, List.nil_prefix, fun hall => hall _ List.mem_cons_self rfl⟩
  | case7 count rounds b data hne ih =>
    obtain ⟨r, hr, heq⟩ := Option.map_eq_some_iff.mp h
    cases heq
    have hsplit := List.take_append_drop (sendSize count (b :: data).length) (b :: data)
    rcases ih hr with ⟨hreply, hout⟩ | ⟨herror, hpart, hclean⟩
    · exact .inl ⟨hreply, by rw [hout, hsplit]⟩
    · obtain ⟨rest, hrest⟩ := hpart
      refine .inr ⟨herror, ⟨rest, by rw [List.append_assoc, hrest, hsplit]⟩, fun hall =>
        hclean fun round hmem => hall round (List.mem_cons_of_mem _ hmem)⟩

theorem writeRounds_total {data : Bytes}
    (h : data.length ≤ rounds.countP WriteRound.moves) : ∃ r, writeRounds rounds data = some r := by
  fun_induction writeRounds rounds data with
  | case1 => exact ⟨_, rfl⟩
  | case2 => simp at h
  | case3 => exact ⟨_, rfl⟩
  | case4 rounds b data ih =>
    refine ih ?_
    rwa [List.countP_cons_of_neg (by simp [WriteRound.moves])] at h
  | case5 => exact ⟨_, rfl⟩
  | case6 => exact ⟨_, rfl⟩
  | case7 count rounds b data hne ih =>
    rw [List.countP_cons_of_pos rfl] at h
    have hsend : 0 < sendSize count (b :: data).length :=
      Nat.lt_min.mpr ⟨Nat.pos_of_ne_zero hne, Nat.lt_min.mpr ⟨by simp, by decide⟩⟩
    obtain ⟨r, hr⟩ := ih (by rw [List.length_drop]; omega)
    exact ⟨_, by rw [hr]; rfl⟩

/-- **Partial reads put the data together**, or one of them fails. -/
theorem readRounds_spec {rounds : List ReadRound} {size : Nat} {input rest : Bytes}
    {reply : Except Errno Bytes} (h : readRounds rounds size input = some (reply, rest)) :
    (size ≤ input.length ∧ reply = .ok (input.take size) ∧ rest = input.drop size) ∨
      (∃ errno, reply = .error errno) ∧
        (size ≤ input.length → ¬ ∀ round ∈ rounds, round.Clean) := by
  fun_induction readRounds rounds size input generalizing rest reply with
  | case1 =>
    cases h
    exact .inl ⟨Nat.zero_le _, by simp, by simp⟩
  | case2 => cases h
  | case3 =>
    cases h
    exact .inr ⟨⟨_, rfl⟩, fun _ hall => hall _ List.mem_cons_self⟩
  | case4 rounds size input ih =>
    rcases ih h with hdone | ⟨herror, hclean⟩
    · exact .inl hdone
    · exact .inr ⟨herror, fun hsize hall => hclean hsize fun round hmem =>
        hall round (List.mem_cons_of_mem _ hmem)⟩
  | case5 =>
    cases h
    exact .inr ⟨⟨_, rfl⟩, fun _ hall => hall _ List.mem_cons_self⟩
  | case6 count rounds size input hzero =>
    cases h
    refine .inr ⟨⟨_, rfl⟩, fun hsize hall => ?_⟩
    have hcount : count ≠ 0 := hall _ List.mem_cons_self
    rw [readSize] at hzero
    omega
  | case7 count rounds size input hne ih =>
    obtain ⟨r, hr, heq⟩ := Option.map_eq_some_iff.mp h
    cases heq
    obtain ⟨n, hn⟩ : ∃ n, n = readSize count (size + 1) input.length := ⟨_, rfl⟩
    have hbound : n ≤ size + 1 ∧ n ≤ input.length := by
      rw [hn, readSize]
      omega
    rw [← hn] at ih hr
    have hsize : n + (size + 1 - n) = size + 1 := by omega
    rcases ih hr with ⟨hlength, hreply, hrest⟩ | ⟨⟨errno, herror⟩, hclean⟩
    · left
      rw [List.length_drop] at hlength
      refine ⟨by omega, ?_, ?_⟩
      · rw [hreply, ← hn, Except.map, ← List.take_add, hsize]
      · rw [hrest, List.drop_drop, hsize]
    · right
      refine ⟨⟨errno, by rw [herror]; rfl⟩, fun hlength hall => hclean ?_ fun round hmem =>
        hall round (List.mem_cons_of_mem _ hmem)⟩
      rw [List.length_drop]
      omega

theorem readRounds_total {rounds : List ReadRound} {size : Nat} {input : Bytes}
    (h : size ≤ rounds.countP ReadRound.moves) : ∃ r, readRounds rounds size input = some r := by
  fun_induction readRounds rounds size input with
  | case1 => exact ⟨_, rfl⟩
  | case2 => simp at h
  | case3 => exact ⟨_, rfl⟩
  | case4 rounds size input ih =>
    refine ih ?_
    rwa [List.countP_cons_of_neg (by simp [ReadRound.moves])] at h
  | case5 => exact ⟨_, rfl⟩
  | case6 => exact ⟨_, rfl⟩
  | case7 count rounds size input hne ih =>
    rw [List.countP_cons_of_pos rfl] at h
    obtain ⟨r, hr⟩ := ih (by omega)
    exact ⟨_, by rw [hr]; rfl⟩

/-! ## Programs over transfers -/

/-- How a call goes: what a write, a read or an allocation makes of it. -/
structure Script where
  nonblocking : Bool
  restored : Bool
  writes : List WriteRound
  reads : List ReadRound
  granted : Bool

/-- No call fails by itself. -/
structure Script.Clean (script : Script) : Prop where
  nonblocking : script.nonblocking = true
  restored : script.restored = true
  writes : ∀ round ∈ script.writes, round.Clean
  reads : ∀ round ∈ script.reads, round.Clean
  granted : script.granted = true

/-- A call goes on until it has moved so many bytes. -/
structure Script.Enough (size : Nat) (script : Script) : Prop where
  writes : size ≤ script.writes.countP WriteRound.moves
  reads : size ≤ script.reads.countP ReadRound.moves

variable {α : Type}

/-- A program over the calls from the number on: its value, what is left in the pipe that it
reads, and what it puts into the one that it writes. -/
def runIo : Io α → (Nat → Script) → Nat → Bytes → Option (α × Bytes × Bytes)
  | .ret a, _, _, input => some (a, input, [])
  | .call (.write data) next, scripts, n, input =>
    match writeAll (scripts n).nonblocking (scripts n).restored (scripts n).writes data with
    | none => none
    | some (reply, out) =>
      (runIo (next reply) scripts (n + 1) input).map fun r => (r.1, r.2.1, out ++ r.2.2)
  | .call (.read size) next, scripts, n, input =>
    match readRounds (scripts n).reads size input with
    | none => none
    | some (reply, rest) => runIo (next reply) scripts (n + 1) rest
  | .call (.allocate _) next, scripts, n, input =>
    runIo (next (scripts n).granted) scripts (n + 1) input
  | .call (.handle _) _, _, _, _ => none
  | .call .generation _, _, _, _ => none

variable {scripts : Nat → Script}

variable {p : Io α} {n : Nat} {input rest out : Bytes}

theorem run_always {P : α → Prop} {a : α} (h : p.Always P)
    (hrun : runIo p scripts n input = some (a, rest, out)) : P a := by
  fun_induction runIo p scripts n input generalizing rest out with
  | case1 =>
    cases hrun
    exact h
  | case2 => cases hrun
  | case3 data next scripts n input reply written hwrite ih =>
    obtain ⟨r, hr, heq⟩ := Option.map_eq_some_iff.mp hrun
    cases heq
    exact ih (h reply) hr
  | case4 => cases hrun
  | case5 size next scripts n input reply left hread ih => exact ih (h reply) hrun
  | case6 size next scripts n input ih => exact ih (h _) hrun
  | _ => cases hrun

variable {bad : α → Prop} {good : α → Bytes → Prop}

/-- **A program that reads** writes nothing, and its value is good unless a call failed or the
bytes ran out. -/
theorem run_reading {whole : Prop} {a : α}
    (h : Reading whole bad good p input) (hrun : runIo p scripts n input = some (a, rest, out)) :
    good a rest ∨ bad a ∧ (whole → ¬ ∀ n, (scripts n).Clean) := by
  fun_induction runIo p scripts n input generalizing rest out with
  | case1 =>
    cases hrun
    exact .inl h
  | case2 => cases hrun
  | case3 => exact h.elim
  | case4 => cases hrun
  | case5 size next scripts n input reply left hread ih =>
    obtain ⟨hfail, hwhole, hgo⟩ := h
    rcases readRounds_spec hread with ⟨hsize, rfl, rfl⟩ | ⟨⟨errno, rfl⟩, hclean⟩
    · exact ih (hgo hsize) hrun
    · exact .inr ⟨run_always (hfail errno) hrun, fun h hall =>
        hclean (hwhole h) (hall n).reads⟩
  | case6 size next scripts n input ih =>
    cases hgranted : (scripts n).granted with
    | true =>
      rw [hgranted] at ih hrun
      exact ih h.2 hrun
    | false =>
      rw [hgranted] at hrun
      refine .inr ⟨run_always h.1 hrun, fun _ hall => ?_⟩
      rw [(hall n).granted] at hgranted
      cases hgranted
  | _ => cases hrun

theorem run_reading_total {input : Bytes} (h : Reading True bad good p input)
    (hclean : ∀ n, (scripts n).Clean) (henough : ∀ n, (scripts n).Enough input.length) :
    ∃ a rest, runIo p scripts n input = some (a, rest, []) ∧ good a rest := by
  induction p generalizing n input with
  | ret a => exact ⟨a, input, rfl, h⟩
  | call call next ih =>
    cases call with
    | read size =>
      obtain ⟨hfail, hwhole, hgo⟩ := h
      have hsize := hwhole trivial
      obtain ⟨r, hr⟩ := @readRounds_total _ size input (Nat.le_trans hsize (henough n).reads)
      obtain ⟨reply, left⟩ := r
      rcases readRounds_spec hr with ⟨-, rfl, rfl⟩ | ⟨-, hfailed⟩
      · rw [runIo, hr]
        refine ih _ (hgo hsize) fun n => ⟨?_, ?_⟩
        · exact Nat.le_trans (List.drop_sublist _ _).length_le (henough n).writes
        · exact Nat.le_trans (List.drop_sublist _ _).length_le (henough n).reads
      · exact absurd (hclean n).reads (hfailed hsize)
    | allocate size =>
      simp only [runIo, (hclean n).granted]
      exact ih _ h.2 henough
    | _ => exact h.elim

theorem writeAll_spec {script : Script} {data out : Bytes}
    (h : writeAll script.nonblocking script.restored script.writes data = some (reply, out)) :
    (reply = .ok () ∧ out = data) ∨
      (∃ errno, reply = .error errno) ∧ out <+: data ∧ ¬ script.Clean := by
  rw [writeAll] at h
  by_cases hnonblocking : script.nonblocking = true
  · rw [hnonblocking, Bool.not_true, if_neg Bool.false_ne_true] at h
    obtain ⟨r, hr, heq⟩ := Option.map_eq_some_iff.mp h
    obtain ⟨reply', out'⟩ := r
    rcases writeRounds_spec hr with ⟨rfl, rfl⟩ | ⟨⟨errno, rfl⟩, hpart, hclean⟩
    · by_cases hrestored : script.restored = true
      · simp only [hrestored, if_true] at heq
        cases heq
        exact .inl ⟨rfl, rfl⟩
      · simp only [hrestored, Bool.false_eq_true, if_false] at heq
        cases heq
        exact .inr ⟨⟨_, rfl⟩, List.prefix_refl _, fun hall => hrestored hall.restored⟩
    · cases heq
      exact .inr ⟨⟨_, rfl⟩, hpart, fun hall => hclean hall.writes⟩
  · rw [if_pos (by simpa using hnonblocking)] at h
    cases h
    exact .inr ⟨⟨_, rfl⟩, List.nil_prefix, fun hall => hnonblocking hall.nonblocking⟩

theorem writeAll_total {script : Script} {data : Bytes} (hclean : script.Clean)
    (henough : script.Enough data.length) :
    writeAll script.nonblocking script.restored script.writes data = some (.ok (), data) := by
  obtain ⟨r, hr⟩ := writeRounds_total henough.writes
  have hall : writeAll script.nonblocking script.restored script.writes data = some (match r.1 with
        | .ok () => if script.restored then r else (.error .other, r.2)
        | .error _ => r) := by
    rw [writeAll, hclean.nonblocking, Bool.not_true, if_neg Bool.false_ne_true, hr, Option.map_some]
  rcases writeAll_spec hall with ⟨hreply, hout⟩ | ⟨-, -, hfailed⟩
  · rw [hall]
    exact congrArg some (Prod.ext hreply hout)
  · exact absurd hclean hfailed

/-- A program that writes some bytes and succeeds, unless a write fails. -/
def Delivers : Io Bool → Bytes → Prop
  | .ret a, out => a = true ∧ out = []
  | .call (.write data) next, out =>
    (∀ errno, next (.error errno) = .ret false) ∧
      ∃ rest, out = data ++ rest ∧ Delivers (next (.ok ())) rest
  | .call (.read _) _, _ => False
  | .call (.allocate _) _, _ => False
  | .call (.handle _) _, _ => False
  | .call .generation _, _ => False

/-- **A program that writes** has written all its bytes where it succeeds, and a part of them
where it does not. -/
theorem run_delivers {p : Io Bool} {a : Bool} {bytes input rest out : Bytes} (h : Delivers p bytes)
    (hrun : runIo p scripts n input = some (a, rest, out)) :
    (a = true ∧ out = bytes) ∨ (a = false ∧ out <+: bytes ∧ ¬ ∀ n, (scripts n).Clean) := by
  fun_induction runIo p scripts n input generalizing bytes rest out with
  | case1 =>
    cases hrun
    exact .inl ⟨h.1, h.2.symm⟩
  | case2 => cases hrun
  | case3 data next scripts n input reply written hwrite ih =>
    obtain ⟨hfail, later, rfl, hlater⟩ := h
    obtain ⟨r, hr, heq⟩ := Option.map_eq_some_iff.mp hrun
    cases heq
    rcases writeAll_spec hwrite with ⟨rfl, rfl⟩ | ⟨⟨errno, rfl⟩, hpart, hclean⟩
    · rcases ih hlater hr with ⟨hdone, hout⟩ | ⟨hfailed, hout, hclean⟩
      · exact .inl ⟨hdone, by rw [hout]⟩
      · exact .inr ⟨hfailed, (List.prefix_append_right_inj _).mpr hout, hclean⟩
    · rw [hfail errno] at hr
      cases hr
      refine .inr ⟨rfl, ?_, fun hall => hclean (hall n)⟩
      rw [List.append_nil]
      exact hpart.trans (List.prefix_append _ _)
  | case4 => cases hrun
  | case5 => exact h.elim
  | case6 => exact h.elim
  | _ => cases hrun

theorem run_delivers_total {p : Io Bool} {bytes input : Bytes}
    (h : Delivers p bytes) (hclean : ∀ n, (scripts n).Clean)
    (henough : ∀ n, (scripts n).Enough bytes.length) :
    runIo p scripts n input = some (true, input, bytes) := by
  induction p generalizing n bytes with
  | ret a =>
    obtain ⟨rfl, rfl⟩ := h
    rfl
  | call call next ih =>
    cases call with
    | write data =>
      obtain ⟨-, later, rfl, hlater⟩ := h
      have hdata : (scripts n).Enough data.length := by
        have hlength : data.length ≤ (data ++ later).length := by simp
        exact ⟨Nat.le_trans hlength (henough n).writes, Nat.le_trans hlength (henough n).reads⟩
      have hlast : ∀ n, (scripts n).Enough later.length := by
        intro n
        have hlength : later.length ≤ (data ++ later).length := by simp
        exact ⟨Nat.le_trans hlength (henough n).writes, Nat.le_trans hlength (henough n).reads⟩
      rw [runIo, writeAll_total (hclean n) hdata]
      simp only [ih _ hlater hlast, Option.map_some]
    | _ => exact h.elim

/-! ## Frames -/

/-- The two parties accept the entries and their number. -/
structure ResultSet.Limited (result : ResultSet) : Prop where
  count : result.items.length ≤ maxRestCount
  entries : ∀ entry ∈ result.items, entry.Accepted

/-- The frame of a result set. -/
def frame (result : ResultSet) : Bytes :=
  headerBytes .eventResult 8 ++ (resultBytes result ++ entriesBytes result.items)

theorem delivers_writePieces {f : Except Errno Unit → Io Bool} {out : Bytes}
    (hfail : ∀ errno, f (.error errno) = .ret false) (h : Delivers (f (.ok ())) out)
    (pieces : List Bytes) : Delivers ((writePieces pieces).bind f) (pieces.flatten ++ out) := by
  induction pieces with
  | nil => exact h
  | cons piece pieces ih =>
    refine ⟨hfail, pieces.flatten ++ out, ?_, ih⟩
    rw [List.flatten_cons, List.append_assoc]

theorem delivers_sendRestEntries {items : List RestEntry} (h : ∀ entry ∈ items, entry.Accepted) :
    Delivers (sendRestEntries items) (entriesBytes items) := by
  induction items with
  | nil => exact ⟨rfl, rfl⟩
  | cons entry items ih =>
    have hentry := h entry List.mem_cons_self
    rw [RestEntry.Accepted] at hentry
    simp only [sendRestEntries, entriesBytes, hentry, Bool.false_eq_true, if_false]
    exact delivers_writePieces (fun _ => rfl)
      (ih fun entry hmem => h entry (List.mem_cons_of_mem _ hmem)) _

variable {result : ResultSet}

theorem delivers_captureSendResult (h : result.Limited) :
    Delivers (captureSendResult result) (frame result) := by
  have hsplit : frame result =
      [headerBytes .eventResult 8, resultBytes result].flatten ++ entriesBytes result.items := by
    simp [frame]
  rw [captureSendResult, if_neg (Nat.not_lt.mpr h.count), hsplit]
  exact delivers_writePieces (fun _ => rfl) (delivers_sendRestEntries h.entries) _

/-! ## What the reader accepts -/

theorem readText_length (len : Nat) (input : Bytes) :
    Reading False Failed (fun r _ => ∀ text, r = .ok text → text.length = len) (readText len)
      input := by
  rw [readText]
  split
  · intro text htext
    cases htext
  · refine ⟨⟨_, rfl⟩, ?_⟩
    by_cases hempty : len = 0
    · subst hempty
      intro text htext
      cases htext
      rfl
    · simp only [if_true, ne_eq, hempty, not_false_eq_true]
      refine ⟨fun errno => ⟨errno, rfl⟩, False.elim, fun hsize => ?_⟩
      intro text htext
      cases htext
      rw [List.length_take, Nat.min_eq_left hsize]

theorem readRestEntry_accepted (input : Bytes) :
    Reading False Failed (fun r _ => ∀ entry, r = .ok entry → entry.Accepted) readRestEntry
      input := by
  refine ⟨fun errno => ⟨_, rfl⟩, False.elim, fun _ => ?_⟩
  simp only [Program.ret_bind]
  generalize input.take 24 = rest
  split
  · intro entry hentry
    cases hentry
  rename_i hlimits
  refine Reading.bind ((readText_length _ _).mono ?_ ?_)
  · intro method hfailed
    obtain ⟨errno, rfl⟩ := hfailed
    exact always_bind (always_trivial (fun path => always_bind (always_trivial (fun contentType =>
      always_bind (always_trivial (fun body => ⟨_, rfl⟩) _)) _)) _)
  intro method rest' hmethod
  refine Reading.bind ((readText_length _ _).mono ?_ ?_)
  · intro path hfailed
    obtain ⟨errno, rfl⟩ := hfailed
    refine always_bind (always_trivial (fun contentType =>
      always_bind (always_trivial (fun body => ?_) _)) _)
    cases method <;> exact ⟨_, rfl⟩
  intro path rest' hpath
  refine Reading.bind ((readText_length _ _).mono ?_ ?_)
  · intro contentType hfailed
    obtain ⟨errno, rfl⟩ := hfailed
    refine always_bind (always_trivial (fun body => ?_) _)
    cases method <;> cases path <;> exact ⟨_, rfl⟩
  intro contentType rest' hcontentType
  refine Reading.bind ((readText_length _ _).mono ?_ ?_)
  · intro body hfailed
    obtain ⟨errno, rfl⟩ := hfailed
    cases method <;> cases path <;> cases contentType <;> exact ⟨_, rfl⟩
  intro body rest' hbody
  split
  · rename_i method path contentType body
    intro entry hentry
    cases hentry
    rw [RestEntry.Accepted, hmethod _ rfl, hpath _ rfl, hcontentType _ rfl, hbody _ rfl]
    exact Bool.eq_false_iff.mpr hlimits
  · intro entry hentry
    cases hentry

theorem readRestEntries_accepted (count : Nat) {acc : List RestEntry} (input : Bytes)
    (h : ∀ entry ∈ acc, entry.Accepted) :
    Reading False Failed (fun r _ => ∀ items, r = .ok items →
      items.length = acc.length + count ∧ ∀ entry ∈ items, entry.Accepted)
      (readRestEntries count acc) input := by
  induction count generalizing acc input with
  | zero =>
    intro items hitems
    cases hitems
    exact ⟨rfl, h⟩
  | succ count ih =>
    refine Reading.bind ((readRestEntry_accepted input).mono ?_ ?_)
    · intro read hfailed
      obtain ⟨status, rfl⟩ := hfailed
      exact ⟨_, rfl⟩
    intro read rest hread
    cases read with
    | error status =>
      intro items hitems
      cases hitems
    | ok entry =>
      have hmore : ∀ item ∈ acc ++ [entry], item.Accepted := by
        intro item hitem
        rcases List.mem_append.mp hitem with hold | hnew
        · exact h item hold
        · rw [List.mem_singleton.mp hnew]
          exact hread entry rfl
      refine (ih rest hmore).mono (fun _ hbad => hbad) fun r rest' hgood items hitems => ?_
      obtain ⟨hlength, haccepted⟩ := hgood items hitems
      rw [List.length_append, List.length_singleton] at hlength
      exact ⟨by omega, haccepted⟩

/-- **The reader accepts nothing above the limits**, whatever it reads. -/
theorem resultSetRead_limited (input : Bytes) :
    Reading False Failed (fun r _ => ∀ result, r = .ok result → result.Limited) resultSetRead
      input := by
  refine ⟨fun errno => ⟨_, rfl⟩, False.elim, fun _ => ?_⟩
  simp only [Program.ret_bind]
  cases parseHeader (input.take 12) with
  | error errno =>
    intro result hresult
    cases hresult
  | ok header =>
    simp only [Program.pure_eq, Program.ret_bind]
    split
    · intro result hresult
      cases hresult
    refine ⟨fun errno => ⟨_, rfl⟩, False.elim, fun _ => ?_⟩
    simp only [Program.ret_bind]
    split
    · intro result hresult
      cases hresult
      exact ⟨Nat.zero_le _, fun entry hentry => by cases hentry⟩
    split
    · intro result hresult
      cases hresult
    rename_i hmany
    refine ⟨⟨_, rfl⟩, ?_⟩
    simp only [Program.ret_bind, if_true]
    refine Reading.bind ((readRestEntries_accepted _ _ fun entry hentry => by cases hentry).mono
      ?_ ?_)
    · intro items hfailed
      obtain ⟨status, rfl⟩ := hfailed
      exact ⟨_, rfl⟩
    · intro items rest hitems
      cases items with
      | error status =>
        intro result hresult
        cases hresult
      | ok items =>
        intro result hresult
        cases hresult
        obtain ⟨hlength, haccepted⟩ := hitems items rfl
        rw [List.length_nil, Nat.zero_add] at hlength
        exact ⟨by rw [hlength]; exact Nat.not_lt.mp hmany, haccepted⟩

theorem run_limited (hrun : runIo resultSetRead scripts n input = some (.ok result, rest, out)) :
    result.Limited := by
  rcases run_reading (resultSetRead_limited input) hrun with hgood | ⟨hfailed, -⟩
  · exact hgood result rfl
  · obtain ⟨status, hstatus⟩ := hfailed
    cases hstatus

/-- **A frame is read back.**  However the calls of the two parties split its bytes, the writer of
a result set within the limits has written its frame if it succeeds, and a part of it otherwise;
the reader returns that result set and leaves what follows the frame, or it fails; and they fail
only where one of their calls does.  Whatever it reads, the reader returns no result set above
the limits. -/
theorem frame_read_back {result : ResultSet} (hlimited : result.Limited) (rest : Bytes) :
    (∀ scripts sent left out,
      runIo (captureSendResult result) scripts 0 [] = some (sent, left, out) →
        (sent = true ∧ out = frame result) ∨
          (sent = false ∧ out <+: frame result ∧ ¬ ∀ n, (scripts n).Clean)) ∧
    (∀ scripts r left out,
      runIo resultSetRead scripts 0 (frame result ++ rest) = some (r, left, out) →
        (r = .ok result ∧ left = rest) ∨ (Failed r ∧ ¬ ∀ n, (scripts n).Clean)) ∧
    (∀ scripts, (∀ n, (scripts n).Clean) → (∀ n, (scripts n).Enough (frame result ++ rest).length) →
        runIo (captureSendResult result) scripts 0 [] = some (true, [], frame result) ∧
        runIo resultSetRead scripts 0 (frame result ++ rest) = some (.ok result, rest, [])) ∧
    ∀ scripts input accepted left out,
      runIo resultSetRead scripts 0 input = some (.ok accepted, left, out) → accepted.Limited := by
  have hreading : Reading True Failed (fun r left => r = .ok result ∧ left = rest) resultSetRead
      (frame result ++ rest) := by
    have hread := @reading_resultSetRead True result rest hlimited.count (.inl hlimited.entries)
    rwa [← List.append_assoc (resultBytes result), ← List.append_assoc (headerBytes _ _)] at hread
  have hdelivers := delivers_captureSendResult hlimited
  refine ⟨fun scripts sent left out hrun => run_delivers hdelivers hrun,
    fun scripts r left out hrun => ?_, fun scripts hclean henough => ⟨?_, ?_⟩,
    fun scripts input accepted left out hrun => run_limited hrun⟩
  · exact (run_reading hreading hrun).imp_right fun h => ⟨h.1, h.2 trivial⟩
  · refine run_delivers_total hdelivers hclean fun n => ?_
    have hlength : (frame result).length ≤ (frame result ++ rest).length := by simp
    exact ⟨Nat.le_trans hlength (henough n).writes, Nat.le_trans hlength (henough n).reads⟩
  · obtain ⟨a, left, hrun, rfl, rfl⟩ := run_reading_total hreading hclean henough
    exact hrun

/-- A request without a content type and a body, and one with both of them. -/
def twoRequests : ResultSet :=
  { status := 0
    items := [{ method := [71], path := [47], contentType := [], body := [] },
      { method := [80], path := [47], contentType := [116], body := [0, 255] }] }

/-- A call moves its bytes one at a time. -/
def oneByOne : Script :=
  { nonblocking := true, restored := true, writes := List.replicate 200 (.wrote 1)
    reads := List.replicate 200 (.got 1), granted := true }

theorem oneByOne_clean : oneByOne.Clean where
  nonblocking := rfl
  restored := rfl
  writes := by
    intro round hround
    rw [(List.mem_replicate.mp hround).2]
    exact Nat.one_ne_zero
  reads := by
    intro round hround
    rw [(List.mem_replicate.mp hround).2]
    exact Nat.one_ne_zero
  granted := rfl

theorem twoRequests_limited : twoRequests.Limited where
  count := by decide
  entries := by
    intro entry hentry
    simp only [twoRequests, List.mem_cons, List.not_mem_nil, or_false] at hentry
    rcases hentry with rfl | rfl <;> rfl

theorem frame_read_back_twoRequests :
    runIo (captureSendResult twoRequests) (fun _ => oneByOne) 0 [] =
        some (true, [], frame twoRequests) ∧
      runIo resultSetRead (fun _ => oneByOne) 0 (frame twoRequests ++ [7]) =
        some (.ok twoRequests, [7], []) :=
  (frame_read_back twoRequests_limited [7]).2.2.1 (fun _ => oneByOne) (fun _ => oneByOne_clean)
    fun _ => ⟨by decide +kernel, by decide +kernel⟩

end Dcc.HotReload
