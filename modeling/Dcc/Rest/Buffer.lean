import Dcc.Json.Compact
import Dcc.Lib.Growing

/-!
# The buffer of the REST layer

`dcc_rest_buffer_t` is a block of memory that grows by doubling, and the text at its front.  Every
write goes behind that text and is followed by a terminator.

* `append_spec` — an append stays inside the block, and the buffer holds the longer text after it
  unless memory runs out;
* `appendSteps_spec`, `Puts.appendSteps` — the same of a document that is written piece by piece.
-/

namespace Dcc.Rest

open Dcc.Json

/-- What `realloc` comes to: whether a block of a size is granted, and what new memory holds. -/
structure Heap where
  grants : Nat → Bool
  stale : Nat → UInt8

/-- `dcc_rest_buffer_t`: the block behind `data`, of `cap` bytes, and `len`. -/
structure Buffer where
  block : Bytes
  len : Nat

/-- A buffer that `memset` made. -/
def Buffer.empty : Buffer := ⟨[], 0⟩

/-- `memcpy` into a block; `none` where it would write past the end. -/
def copyInto (block : Bytes) (offset : Nat) (data : Bytes) : Option Bytes :=
  if offset + data.length ≤ block.length then
    some (block.take offset ++ (data ++ block.drop (offset + data.length)))
  else none

/-- The size that `dcc_rest_buffer_reserve` asks for: doubled until it is enough, or just enough
where doubling would overflow. -/
def reserveCap (cap needed : Nat) : Nat :=
  (Growing.grow wordMax 64 (if cap ≠ 0 then cap else 1024) needed).getD needed

/-- `dcc_rest_buffer_reserve`. -/
def reserveBuffer (heap : Heap) (buffer : Buffer) (extra : Nat) : Except Status Buffer :=
  if wordMax - buffer.len < extra then .error .nomem
  else if buffer.len + extra ≤ buffer.block.length then .ok buffer
  else
    let cap := reserveCap buffer.block.length (buffer.len + extra)
    if heap.grants cap then
      .ok { buffer with
        block := buffer.block ++
          (List.range' buffer.block.length (cap - buffer.block.length)).map heap.stale }
    else .error .nomem

/-- `dcc_rest_buffer_append`; `none` where it would write past the end of the block. -/
def append (heap : Heap) (buffer : Buffer) (data : Bytes) : Option (Status × Buffer) :=
  if wordMax - 1 < buffer.len ∨ wordMax - buffer.len - 1 < data.length then some (.nomem, buffer)
  else
    match reserveBuffer heap buffer (data.length + 1) with
    | .error status => some (status, buffer)
    | .ok buffer =>
      match copyInto buffer.block buffer.len data with
      | none => none
      | some block =>
        match copyInto block (buffer.len + data.length) [0] with
        | none => none
        | some block => some (.ok, ⟨block, buffer.len + data.length⟩)

/-- A document that is written piece by piece, up to the first status that is not `DCC_OK`. -/
def appendSteps (heap : Heap) : Buffer → List (Except Status Bytes) → Option (Status × Buffer)
  | buffer, [] => some (.ok, buffer)
  | buffer, .error status :: _ => some (status, buffer)
  | buffer, .ok data :: steps =>
    match append heap buffer data with
    | none => none
    | some (.ok, buffer) => appendSteps heap buffer steps
    | some (status, buffer) => some (status, buffer)

/-! ## JSON strings -/

/-- `"0123456789abcdef"[n]`. -/
def lowerHexDigit (n : UInt8) : UInt8 := if n < 10 then 0x30 + n else 0x57 + n

/-- What `dcc_rest_buffer_append_json_string` appends for one byte. -/
def escapeRestByte (ch : UInt8) : Bytes :=
  if ch = chQuote then [chBackslash, chQuote]
  else if ch = chBackslash then [chBackslash, chBackslash]
  else if ch = 0x08 then [chBackslash, 0x62]
  else if ch = 0x0c then [chBackslash, 0x66]
  else if ch = 0x0a then [chBackslash, 0x6e]
  else if ch = 0x0d then [chBackslash, 0x72]
  else if ch = 0x09 then [chBackslash, 0x74]
  else if ch < 0x20 then
    [chBackslash, 0x75, 0x30, 0x30, lowerHexDigit (ch >>> 4), lowerHexDigit (ch &&& 0x0f)]
  else [ch]

theorem escapeRestByte_eq {ch : UInt8} (h : ¬ ch < 0x20) : escapeRestByte ch = escapeByte ch := by
  rw [escapeRestByte, escapeByte, if_neg h, if_neg h]

/-- `dcc_rest_buffer_append_json_string` of a C string. -/
def jsonStringSteps (value : Bytes) : List (Except Status Bytes) :=
  .ok [chQuote] :: (value.map fun ch => .ok (escapeRestByte ch)) ++ [.ok [chQuote]]

/-! ## What a buffer holds -/

/-- The front of the block is the text with its terminator. -/
structure Buffer.Holds (buffer : Buffer) (text : Bytes) : Prop where
  len : buffer.len = text.length
  front : buffer.block.take buffer.len = text
  room : buffer.block = [] ∨ buffer.block[buffer.len]? = some 0

theorem holds_empty : Buffer.empty.Holds [] := ⟨rfl, rfl, .inl rfl⟩

section

variable {heap : Heap} {buffer : Buffer} {text data : Bytes}

theorem Buffer.Holds.len_le (h : buffer.Holds text) : buffer.len ≤ buffer.block.length := by
  have hlength := congrArg List.length h.front
  rw [List.length_take, ← h.len] at hlength
  omega

theorem copyInto_eq {block : Bytes} {offset : Nat} (h : offset + data.length ≤ block.length) :
    copyInto block offset data =
      some (block.take offset ++ (data ++ block.drop (offset + data.length))) :=
  if_pos h

theorem le_reserveCap (cap needed : Nat) : needed ≤ reserveCap cap needed := by
  rw [reserveCap]
  cases hgrow : Growing.grow wordMax 64 (if cap ≠ 0 then cap else 1024) needed with
  | none => exact Nat.le_refl _
  | some next => exact Growing.le_of_grow hgrow

theorem reserveBuffer_spec (extra : Nat) :
    (∃ more, reserveBuffer heap buffer extra = .ok { buffer with block := buffer.block ++ more } ∧
        buffer.len + extra ≤ (buffer.block ++ more).length) ∨
      (reserveBuffer heap buffer extra = .error .nomem ∧
        ((∀ size, heap.grants size = true) → wordMax - buffer.len < extra)) := by
  rw [reserveBuffer]
  split
  · next hmany => exact .inr ⟨rfl, fun _ => hmany⟩
  · split
    · next hroom =>
      refine .inl ⟨[], ?_, ?_⟩
      · rw [List.append_nil]
      · rwa [List.append_nil]
    · next hshort =>
      have hcap := le_reserveCap buffer.block.length (buffer.len + extra)
      simp only
      split
      · refine .inl ⟨_, rfl, ?_⟩
        rw [List.length_append, List.length_map, List.length_range']
        omega
      · next hrefused => exact .inr ⟨rfl, fun hall => absurd (hall _) hrefused⟩

/-- **An append** writes inside the block, and the buffer holds the longer text after it, unless
memory runs out. -/
theorem append_spec (h : buffer.Holds text) (data : Bytes) :
    (∃ buffer', append heap buffer data = some (.ok, buffer') ∧ buffer'.Holds (text ++ data)) ∨
      (append heap buffer data = some (.nomem, buffer) ∧
        ((∀ size, heap.grants size = true) → wordMax ≤ (text ++ data).length)) := by
  have hlen := h.len
  rw [append]
  split
  · next hmany =>
    refine .inr ⟨rfl, fun _ => ?_⟩
    rw [List.length_append]
    omega
  · next hfits =>
    rcases @reserveBuffer_spec heap buffer (data.length + 1) with
      ⟨more, hreserve, hroom⟩ | ⟨hfail, hwhy⟩
    · left
      rw [hreserve]
      have hfront : (buffer.block ++ more).take buffer.len = text := by
        rw [List.take_append_of_le_length h.len_le, h.front]
      simp only
      generalize buffer.block ++ more = block at hroom hfront
      rw [copyInto_eq (by omega), hfront]
      have hlast : buffer.len + data.length + ([0] : Bytes).length ≤
          (text ++ (data ++ block.drop (buffer.len + data.length))).length := by
        simp only [List.length_append, List.length_drop, List.length_singleton]
        omega
      simp only
      rw [copyInto_eq hlast]
      have hfront' : (text ++ (data ++ block.drop (buffer.len + data.length))).take
          (buffer.len + data.length) = text ++ data := by
        rw [← List.append_assoc, List.take_left' (by rw [List.length_append, hlen])]
      rw [hfront']
      refine ⟨_, rfl, ?_, ?_, .inr ?_⟩
      · rw [List.length_append, hlen]
      · exact List.take_left' (by rw [List.length_append, hlen])
      · have hindex : buffer.len + data.length = (text ++ data).length := by
          rw [List.length_append, hlen]
        simp [hindex]
    · right
      rw [hfail]
      refine ⟨rfl, fun hall => ?_⟩
      have hlong := hwhy hall
      rw [List.length_append]
      omega

end

/-- **A document** is in the buffer after its pieces, or memory ran out.  No write leaves the
block. -/
theorem appendSteps_spec {heap : Heap} {buffer : Buffer} {text : Bytes} (h : buffer.Holds text)
    (pieces : List Bytes) :
    (∃ buffer', appendSteps heap buffer (pieces.map .ok) = some (.ok, buffer') ∧
        buffer'.Holds (text ++ pieces.flatten)) ∨
      ((∃ buffer', appendSteps heap buffer (pieces.map .ok) = some (.nomem, buffer')) ∧
        ((∀ size, heap.grants size = true) → wordMax ≤ (text ++ pieces.flatten).length)) := by
  induction pieces generalizing buffer text with
  | nil =>
    refine .inl ⟨buffer, rfl, ?_⟩
    rwa [List.flatten_nil, List.append_nil]
  | cons piece pieces ih =>
    rw [List.map_cons, appendSteps, List.flatten_cons, ← List.append_assoc]
    rcases @append_spec heap _ _ h piece with ⟨buffer', happend, hholds⟩ | ⟨happend, hwhy⟩
    · rw [happend]
      exact ih hholds
    · rw [happend]
      refine .inr ⟨⟨buffer, rfl⟩, fun hall => ?_⟩
      rw [List.length_append]
      exact Nat.le_trans (hwhy hall) (Nat.le_add_right _ _)

/-- The steps write a text, all of it. -/
def Puts (steps : List (Except Status Bytes)) (text : Bytes) : Prop :=
  ∃ pieces : List Bytes, steps = pieces.map .ok ∧ pieces.flatten = text

theorem puts_nil : Puts [] [] := ⟨[], rfl, rfl⟩

theorem puts_ok (data : Bytes) : Puts [.ok data] data := ⟨[data], rfl, by simp⟩

theorem Puts.append {steps more : List (Except Status Bytes)} {text rest : Bytes}
    (h : Puts steps text) (hmore : Puts more rest) : Puts (steps ++ more) (text ++ rest) := by
  obtain ⟨pieces, rfl, rfl⟩ := h
  obtain ⟨pieces', rfl, rfl⟩ := hmore
  exact ⟨pieces ++ pieces', (List.map_append ..).symm, List.flatten_append⟩

/-- Steps that write a text, in a new buffer. -/
theorem Puts.appendSteps {steps : List (Except Status Bytes)} {text : Bytes} (h : Puts steps text)
    (heap : Heap) :
    (∃ buffer, Rest.appendSteps heap Buffer.empty steps = some (.ok, buffer) ∧ buffer.Holds text) ∨
      ((∃ buffer, Rest.appendSteps heap Buffer.empty steps = some (.nomem, buffer)) ∧
        ((∀ size, heap.grants size = true) → wordMax ≤ text.length)) := by
  obtain ⟨pieces, rfl, rfl⟩ := h
  exact appendSteps_spec holds_empty pieces

end Dcc.Rest
