import Mathlib.Tactic.Ring
import Dcc.Basic

/-!
# WebSocket bytes

The bytes of a connection come from two places: what the handshake had read past
its end, and then the reads of the socket, each of which may give less than was
asked for.  `dcc_ws_read_exact` hides both.

* `Source.readExact_append` — however the bytes are split, reading `n` of them gives
  the first `n` and leaves the rest;
* `readBE_bigEndian`, `xorMask_xorMask` — lengths and masked payloads read back;
* `Header`, `Frame` — the frames of the protocol and their encoding, with the three
  forms of a length and an optional mask.
-/

namespace Dcc.WebSocket

/-! ## Reading -/

/-- The unread part of `rx_buf`, and then what each `dcc_conn_read` comes back with;
an empty segment is a read that fails or meets the end of the stream. -/
structure Source where
  leftover : Bytes
  segments : List Bytes
  deriving DecidableEq, Repr

/-- The loop of `dcc_ws_read_exact`.  A read takes no more than what is still wanted;
the rest of a segment is for the next read. -/
def readLoop : List Bytes → Nat → List Bytes × Option Bytes
  | segments, 0 => (segments, some [])
  | [], _ + 1 => ([], none)
  | segment :: rest, wanted + 1 =>
    if segment = [] then (rest, none)
    else if segment.length ≤ wanted + 1 then
      match readLoop rest (wanted + 1 - segment.length) with
      | (left, none) => (left, none)
      | (left, some bytes) => (left, some (segment ++ bytes))
    else (segment.drop (wanted + 1) :: rest, some (segment.take (wanted + 1)))

/-- `dcc_ws_read_exact`. -/
def Source.readExact (s : Source) (len : Nat) : Source × Option Bytes :=
  let first := s.leftover.take len
  match readLoop s.segments (len - first.length) with
  | (left, none) => (⟨s.leftover.drop len, left⟩, none)
  | (left, some bytes) => (⟨s.leftover.drop len, left⟩, some (first ++ bytes))

/-- All bytes that are still to come. -/
def Source.bytes (s : Source) : Bytes := s.leftover ++ s.segments.flatten

/-- No read fails before the stream is at its end. -/
def Source.Live (s : Source) : Prop := ∀ segment ∈ s.segments, segment ≠ []

theorem readLoop_append {segments : List Bytes} (hlive : ∀ segment ∈ segments, segment ≠ [])
    {a b : Bytes} (h : segments.flatten = a ++ b) :
    ∃ left, readLoop segments a.length = (left, some a) ∧ left.flatten = b ∧
      ∀ segment ∈ left, segment ≠ [] := by
  induction segments generalizing a with
  | nil =>
    obtain ⟨rfl, rfl⟩ : a = [] ∧ b = [] := by simpa using h.symm
    exact ⟨[], rfl, rfl, hlive⟩
  | cons segment rest ih =>
    cases a with
    | nil => exact ⟨segment :: rest, by simp [readLoop], h, hlive⟩
    | cons x a =>
      have hne : segment ≠ [] := hlive segment List.mem_cons_self
      have hrest : ∀ s ∈ rest, s ≠ [] := fun s hs => hlive s (List.mem_cons_of_mem _ hs)
      rw [List.flatten_cons] at h
      rw [List.length_cons, readLoop, if_neg hne]
      -- the segment ends before what is wanted does, or the other way round
      rcases List.append_eq_append_iff.mp h with ⟨tail, ha, htail⟩ | ⟨tail, hsegment, hb⟩
      · have hle : segment.length ≤ a.length + 1 := by
          have hlength := congrArg List.length ha
          simp only [List.length_cons, List.length_append] at hlength
          omega
        have hleft : a.length + 1 - segment.length = tail.length := by
          have hlength := congrArg List.length ha
          simp only [List.length_cons, List.length_append] at hlength
          omega
        obtain ⟨left, hread, hbytes, hstill⟩ := ih hrest htail
        rw [if_pos hle, hleft, hread]
        exact ⟨left, by rw [ha], hbytes, hstill⟩
      · by_cases htail : tail = []
        · subst htail
          have hlength := congrArg List.length hsegment
          simp only [List.length_cons, List.append_nil] at hlength
          obtain ⟨left, hread, hbytes, hstill⟩ := ih (a := []) hrest hb.symm
          rw [if_pos (by omega), show a.length + 1 - segment.length = ([] : Bytes).length by
            simp only [List.length_nil]; omega, hread]
          refine ⟨left, ?_, hbytes, hstill⟩
          simpa using hsegment
        · have hlong : ¬ segment.length ≤ a.length + 1 := by
            have hpos := List.length_pos_of_ne_nil htail
            have hlength := congrArg List.length hsegment
            simp only [List.length_cons, List.length_append] at hlength
            omega
          have htake : segment.take (a.length + 1) = x :: a := by
            rw [hsegment]
            exact List.take_left' rfl
          have hdrop : segment.drop (a.length + 1) = tail := by
            rw [hsegment]
            exact List.drop_left' rfl
          rw [if_neg hlong, htake, hdrop]
          refine ⟨tail :: rest, rfl, ?_, ?_⟩
          · rw [List.flatten_cons]
            exact hb.symm
          · intro s hs
            rcases List.mem_cons.mp hs with rfl | hs
            · exact htail
            · exact hrest s hs

/-- **Reading does not depend on how the bytes come.** -/
theorem Source.readExact_append {s : Source} (hlive : s.Live) {a b : Bytes} (h : s.bytes = a ++ b) :
    ∃ s' : Source, s.readExact a.length = (s', some a) ∧ s'.bytes = b ∧ s'.Live := by
  rcases List.append_eq_append_iff.mp h with ⟨tail, ha, htail⟩ | ⟨tail, hleftover, hb⟩
  · have htake : s.leftover.take a.length = s.leftover := by
      rw [ha]
      exact List.take_of_length_le (by simp)
    have hdrop : s.leftover.drop a.length = [] := by
      rw [ha]
      exact List.drop_of_length_le (by simp)
    have hwanted : a.length - s.leftover.length = tail.length := by
      rw [ha, List.length_append]
      omega
    obtain ⟨left, hread, hbytes, hstill⟩ := readLoop_append hlive htail
    refine ⟨⟨[], left⟩, ?_, hbytes, hstill⟩
    simp only [Source.readExact, htake, hdrop, hwanted, hread, ← ha]
  · have htake : s.leftover.take a.length = a := by
      rw [hleftover]
      exact List.take_left' rfl
    have hdrop : s.leftover.drop a.length = tail := by
      rw [hleftover]
      exact List.drop_left' rfl
    refine ⟨⟨tail, s.segments⟩, ?_, hb.symm, hlive⟩
    simp [Source.readExact, htake, hdrop, readLoop]

theorem readLoop_length {segments left : List Bytes} {wanted : Nat} {bytes : Bytes}
    (h : readLoop segments wanted = (left, some bytes)) :
    bytes.length = wanted ∧ left.flatten.length + wanted = segments.flatten.length := by
  induction segments generalizing wanted left bytes with
  | nil =>
    cases wanted with
    | zero =>
      simp only [readLoop, Prod.mk.injEq, Option.some.injEq] at h
      obtain ⟨rfl, rfl⟩ := h
      exact ⟨rfl, rfl⟩
    | succ wanted => simp [readLoop] at h
  | cons segment rest ih =>
    cases wanted with
    | zero =>
      simp only [readLoop, Prod.mk.injEq, Option.some.injEq] at h
      obtain ⟨rfl, rfl⟩ := h
      exact ⟨rfl, rfl⟩
    | succ wanted =>
      simp only [readLoop] at h
      split at h
      · simp at h
      · split at h
        · next hle =>
          split at h
          · simp at h
          · next left' more hread =>
            obtain ⟨hmore, hleft⟩ := ih hread
            simp only [Prod.mk.injEq, Option.some.injEq] at h
            obtain ⟨rfl, rfl⟩ := h
            simp only [List.length_append, List.flatten_cons]
            omega
        · next hlong =>
          simp only [Prod.mk.injEq, Option.some.injEq] at h
          obtain ⟨rfl, rfl⟩ := h
          simp only [List.length_append, List.flatten_cons, List.length_drop, List.length_take]
          omega

theorem Source.readExact_length {s s' : Source} {len : Nat} {bytes : Bytes}
    (h : s.readExact len = (s', some bytes)) :
    bytes.length = len ∧ s'.bytes.length + len = s.bytes.length := by
  simp only [Source.readExact] at h
  split at h
  · simp at h
  · next left more hread =>
    simp only [Prod.mk.injEq, Option.some.injEq] at h
    obtain ⟨rfl, rfl⟩ := h
    obtain ⟨hmore, hleft⟩ := readLoop_length hread
    simp only [Source.bytes, List.length_append, List.length_drop, List.length_take] at *
    omega

/-! ## Numbers and masks -/

/-- `dcc_ws_write_u16` and `dcc_ws_write_u64`: the last `k` base-256 digits, the most
significant one first. -/
def bigEndian : Nat → Nat → Bytes
  | 0, _ => []
  | k + 1, n => UInt8.ofNat (n / 256 ^ k) :: bigEndian k n

/-- `dcc_ws_read_u16` and `dcc_ws_read_u64`. -/
def readBE (data : Bytes) : Nat := data.foldl (fun value b => value * 256 + b.toNat) 0

theorem length_bigEndian (k n : Nat) : (bigEndian k n).length = k := by
  induction k with
  | zero => rfl
  | succ k ih => rw [bigEndian, List.length_cons, ih]

theorem foldl_bigEndian (k n value : Nat) :
    (bigEndian k n).foldl (fun value b => value * 256 + b.toNat) value =
      value * 256 ^ k + n % 256 ^ k := by
  induction k generalizing value with
  | zero => simp [bigEndian, Nat.mod_one]
  | succ k ih =>
    have hdigit : (UInt8.ofNat (n / 256 ^ k)).toNat = n / 256 ^ k % 256 := by simp
    have hmod : n % 256 ^ (k + 1) = 256 ^ k * (n / 256 ^ k % 256) + n % 256 ^ k := by
      rw [Nat.pow_succ, Nat.mod_mul]
      omega
    rw [bigEndian, List.foldl_cons, ih, hdigit, hmod, Nat.pow_succ]
    ring

/-- A number that fits reads back. -/
theorem readBE_bigEndian {k n : Nat} (h : n < 256 ^ k) : readBE (bigEndian k n) = n := by
  rw [readBE, foldl_bigEndian, Nat.zero_mul, Nat.zero_add, Nat.mod_eq_of_lt h]

/-- The loop that masks a payload and unmasks it. -/
def xorMask (mask payload : Bytes) : Bytes :=
  payload.mapIdx fun i b => b ^^^ mask.getD (i % 4) 0

theorem length_xorMask (mask payload : Bytes) : (xorMask mask payload).length = payload.length := by
  simp [xorMask]

/-- A mask undoes itself. -/
theorem xorMask_xorMask (mask payload : Bytes) : xorMask mask (xorMask mask payload) = payload := by
  refine List.ext_getElem (by simp [xorMask]) ?_
  intro i h₁ h₂
  simp [xorMask, UInt8.xor_assoc]

/-! ## Frames -/

/-- The three ways to write a length. -/
inductive LengthForm
  | short
  | word
  | quad
  deriving DecidableEq, Repr

/-- The lengths that a form can carry. -/
def LengthForm.Fits : LengthForm → Nat → Prop
  | .short, n => n ≤ 125
  | .word, n => n < 256 ^ 2
  | .quad, n => n < 256 ^ 8

/-- The header of a frame, reserved bits included. -/
structure Header where
  fin : Bool
  reserved : Fin 8
  opcode : Fin 16
  masked : Bool
  form : LengthForm
  length : Nat
  fits : form.Fits length

/-- The seven bits of the length in the second byte. -/
def Header.lengthBits (h : Header) : Nat :=
  match h.form with
  | .short => h.length
  | .word => 126
  | .quad => 127

/-- The bytes of the length after the first two. -/
def Header.extension (h : Header) : Bytes :=
  match h.form with
  | .short => []
  | .word => bigEndian 2 h.length
  | .quad => bigEndian 8 h.length

/-- The bytes of a header. -/
def Header.encode (h : Header) : Bytes :=
  UInt8.ofNat ((if h.fin then 128 else 0) + h.reserved * 16 + h.opcode) ::
    UInt8.ofNat ((if h.masked then 128 else 0) + h.lengthBits) :: h.extension

/-- A frame without reserved bits. -/
structure Frame where
  header : Header
  mask : Bytes
  payload : Bytes
  plain : header.reserved = 0
  maskLength : mask.length = if header.masked then 4 else 0
  payloadLength : payload.length = header.length

/-- The bytes of a frame. -/
def Frame.encode (f : Frame) : Bytes :=
  f.header.encode ++ f.mask ++ if f.header.masked then xorMask f.mask f.payload else f.payload

/-- The bytes of one frame after another. -/
def encodeAll (frames : List Frame) : Bytes := frames.flatMap Frame.encode

end Dcc.WebSocket
