import Mathlib.Data.List.Basic
import Mathlib.Data.List.TakeWhile
import Dcc.Basic

/-!
# Chunked bodies

`dcc_http_decode_chunked_body` walks over a body with a position of type `size_t`
and appends the data of every chunk to a buffer.  The model keeps the position
and has no value where a sum of positions would wrap, so that a run with a value
is a run in which nothing wraps.

* `HttpBuffer.Grown.length_lt`: a buffer filled by appending, as the response
  is, stays below half of the address space;
* `readSize_iff`: the size lines that are read are those of the grammar;
* `decodeLoop_drop`: the positions of the decoder follow the rest of the body;
* `decode_chunked_body`: every run ends without wrapping; a chunked body gives
  its data, and what is none is refused.
-/

namespace Dcc.Http

/-! ## Buffers -/

/-- `dcc_http_buffer_t`: the bytes in use and the capacity. -/
structure HttpBuffer where
  data : Bytes
  cap : Nat
  deriving DecidableEq, Repr

namespace HttpBuffer

/-- `{0}`. -/
def empty : HttpBuffer := ⟨[], 0⟩

/-- The doubling of `dcc_http_buffer_reserve`; a capacity doubles at most 64 times. -/
def growCap : Nat → Nat → Nat → Option Nat
  | 0, _, _ => none
  | fuel + 1, cap, needed =>
    if needed ≤ cap then some cap
    else if wordMax / 2 < cap then none
    else growCap fuel (cap * 2) needed

/-- `dcc_http_buffer_reserve`: the new capacity; `granted` is what `realloc` grants. -/
def reserve (granted : Nat → Bool) (buf : HttpBuffer) (extra : Nat) : Option Nat :=
  if wordMax - buf.data.length < extra then none
  else if buf.data.length + extra ≤ buf.cap then some buf.cap
  else
    (growCap 65 (if buf.cap = 0 then 1024 else buf.cap) (buf.data.length + extra)).filter granted

/-- `dcc_http_buffer_append`. -/
def append (granted : Nat → Bool) (buf : HttpBuffer) (data : Bytes) : Option HttpBuffer :=
  if wordMax - buf.data.length ≤ data.length then none
  else (buf.reserve granted (data.length + 1)).map fun cap => ⟨buf.data ++ data, cap⟩

/-- A buffer that appending has filled: its capacity is a power of two of at most 2^63
bytes, with room for a NUL. -/
def Grown (buf : HttpBuffer) : Prop :=
  buf = empty ∨ ∃ k ≤ 53, buf.cap = 1024 * 2 ^ k ∧ buf.data.length < buf.cap

theorem growCap_pow {fuel k needed cap : Nat} (hk : k ≤ 53)
    (h : growCap fuel (1024 * 2 ^ k) needed = some cap) :
    needed ≤ cap ∧ ∃ j ≤ 53, cap = 1024 * 2 ^ j := by
  induction fuel generalizing k with
  | zero => cases h
  | succ fuel ih =>
    rw [growCap] at h
    by_cases hroom : needed ≤ 1024 * 2 ^ k
    · rw [if_pos hroom] at h
      cases h
      exact ⟨hroom, k, hk, rfl⟩
    rw [if_neg hroom] at h
    by_cases hlimit : wordMax / 2 < 1024 * 2 ^ k
    · rw [if_pos hlimit] at h
      cases h
    rw [if_neg hlimit, Nat.mul_assoc, ← Nat.pow_succ] at h
    have hlt : k < 53 := by
      by_contra hge
      obtain rfl : k = 53 := by omega
      exact hlimit (by decide)
    exact ih hlt h

theorem growCap_isSome {fuel cap needed : Nat} (hneeded : needed ≤ 2 ^ 63)
    (hfuel : needed ≤ cap * 2 ^ fuel) : ∃ next, growCap (fuel + 1) cap needed = some next := by
  induction fuel generalizing cap with
  | zero =>
    rw [growCap, if_pos (by simpa using hfuel)]
    exact ⟨_, rfl⟩
  | succ fuel ih =>
    rw [growCap]
    by_cases hroom : needed ≤ cap
    · exact ⟨_, if_pos hroom⟩
    · have hlimit : ¬ wordMax / 2 < cap := by
        have hhalf : wordMax / 2 = 2 ^ 63 - 1 := by decide
        omega
      rw [if_neg hroom, if_neg hlimit]
      apply ih
      rw [Nat.mul_assoc, ← Nat.pow_succ']
      exact hfuel

/-- **Appending** copies the data behind what is there. -/
theorem append_data {granted : Nat → Bool} {buf next : HttpBuffer} {data : Bytes}
    (h : buf.append granted data = some next) : next.data = buf.data ++ data := by
  unfold append at h
  split at h
  · cases h
  · obtain ⟨cap, -, rfl⟩ := Option.map_eq_some_iff.mp h
    rfl

theorem Grown.append {granted : Nat → Bool} {buf next : HttpBuffer} {data : Bytes}
    (hbuf : buf.Grown) (h : buf.append granted data = some next) : next.Grown := by
  unfold HttpBuffer.append at h
  split at h
  · cases h
  obtain ⟨cap, hcap, rfl⟩ := Option.map_eq_some_iff.mp h
  unfold reserve at hcap
  split at hcap
  · cases hcap
  split at hcap
  · next hroom =>
    cases hcap
    obtain rfl | ⟨k, hk, hpow, -⟩ := hbuf
    · simp [empty] at hroom
    · exact .inr ⟨k, hk, hpow, by simp only [List.length_append]; omega⟩
  · obtain ⟨hgrow, -⟩ := Option.filter_eq_some_iff.mp hcap
    have hstart : ∃ k ≤ 53, (if buf.cap = 0 then 1024 else buf.cap) = 1024 * 2 ^ k := by
      obtain rfl | ⟨k, hk, hpow, -⟩ := hbuf
      · exact ⟨0, by omega, rfl⟩
      · rw [if_neg (by rw [hpow]; exact (Nat.mul_pos (by decide) (Nat.two_pow_pos k)).ne')]
        exact ⟨k, hk, hpow⟩
    obtain ⟨k, hk, hstart⟩ := hstart
    rw [hstart] at hgrow
    obtain ⟨hneeded, j, hj, hpow⟩ := growCap_pow hk hgrow
    exact .inr ⟨j, hj, hpow, by simp only [List.length_append]; omega⟩

variable {buf : HttpBuffer}

/-- **A buffer filled by appending** holds less than 2^63 bytes. -/
theorem Grown.length_lt (h : buf.Grown) : buf.data.length < 2 ^ 63 := by
  obtain rfl | ⟨k, hk, hpow, hlt⟩ := h
  · decide
  · have hle : 2 ^ k ≤ 2 ^ 53 := Nat.pow_le_pow_right (by decide) hk
    omega

theorem append_isSome {granted : Nat → Bool} {data : Bytes}
    (hgranted : ∀ n, granted n = true) (hlength : buf.data.length + data.length < 2 ^ 63) :
    ∃ next, buf.append granted data = some next := by
  have hmax : wordMax = 2 ^ 64 - 1 := by decide
  rw [HttpBuffer.append, if_neg (by omega), reserve, if_neg (by omega)]
  by_cases hroom : buf.data.length + (data.length + 1) ≤ buf.cap
  · rw [if_pos hroom]
    exact ⟨_, rfl⟩
  · have hpos : 1 ≤ if buf.cap = 0 then 1024 else buf.cap := by split <;> omega
    have hfuel : buf.data.length + (data.length + 1) ≤
        (if buf.cap = 0 then 1024 else buf.cap) * 2 ^ 64 := by
      have hmul := Nat.mul_le_mul_right (2 ^ 64) hpos
      omega
    obtain ⟨next, hnext⟩ := growCap_isSome (by omega) hfuel
    rw [if_neg hroom, hnext, Option.filter_some_pos (hgranted next)]
    exact ⟨_, rfl⟩

end HttpBuffer

/-! ## The decoder -/

/-- `';'`. -/
def chSemicolon : UInt8 := 0x3b

/-- `'\r'`. -/
def chCR : UInt8 := 0x0d

/-- `'\n'`. -/
def chLF : UInt8 := 0x0a

/-- `dcc_http_hex_digit`. -/
def hexDigit (c : UInt8) : Option Nat :=
  if 0x30 ≤ c ∧ c ≤ 0x39 then some (c.toNat - 0x30)
  else if 0x61 ≤ c ∧ c ≤ 0x66 then some (c.toNat - 0x61 + 10)
  else if 0x41 ≤ c ∧ c ≤ 0x46 then some (c.toNat - 0x41 + 10)
  else none

/-- A sum of positions; it has no value where `size_t` would wrap. -/
def posAdd (pos n : Nat) : Option Nat := if pos + n < wordSize then some (pos + n) else none

section Decoder

variable (body : Bytes)

/-- The byte at a position inside the body. -/
def byteAt (pos : Nat) : UInt8 := body.getD pos 0

/-- The extension of a chunk, up to the end of its line. -/
def skipExtension : Nat → Nat → Option Nat
  | 0, _ => none
  | fuel + 1, pos =>
    if pos < body.length ∧ byteAt body pos ≠ chCR ∧ byteAt body pos ≠ chLF then
      (posAdd pos 1).bind (skipExtension fuel)
    else some pos

/-- What the loop over a size line leaves behind. -/
structure SizeScan where
  pos : Nat
  chunkLen : Nat
  sawDigit : Bool
  deriving DecidableEq, Repr

/-- The loop over a size line; it stops at a byte that is no digit, or that would shift a
digit out of 64 bits. -/
def sizeLoop : Nat → SizeScan → Option (Option SizeScan)
  | 0, _ => none
  | fuel + 1, scan =>
    if scan.pos < body.length then
      (posAdd scan.pos 1).bind fun next =>
        let c := byteAt body scan.pos
        if c = chSemicolon then
          (skipExtension body fuel next).map fun pos => some { scan with pos := pos }
        else if c = chCR ∨ c = chLF then some (some { scan with pos := next - 1 })
        else
          match hexDigit c with
          | none => some none
          | some h =>
            if wordMax >>> 4 < scan.chunkLen then some none
            else sizeLoop fuel ⟨next, ((scan.chunkLen <<< 4) % wordSize) ||| h, true⟩
    else some (some scan)

/-- The position after a `"\r\n"`, or that there is none. -/
def afterCrlf (pos : Nat) : Option (Option Nat) :=
  (posAdd pos 2).map fun next =>
    if body.length < next ∨ byteAt body pos ≠ chCR ∨ byteAt body (pos + 1) ≠ chLF then none
    else some next

/-- The size of the next chunk and the position of its data, or that its line is malformed. -/
def sizeLine (pos : Nat) : Option (Option (Nat × Nat)) :=
  (sizeLoop body (body.length + 1) ⟨pos, 0, false⟩).bind fun
    | none => some none
    | some scan =>
      if scan.sawDigit then
        (afterCrlf body scan.pos).map fun next => next.map fun next => (scan.chunkLen, next)
      else some none

/-- The search for the end of the trailer; the outcome is the same where there is none. -/
def skipTrailer : Nat → Nat → Option Unit
  | 0, _ => none
  | fuel + 1, pos =>
    (posAdd pos 1).bind fun next =>
      if next < body.length then
        if byteAt body pos = chCR ∧ byteAt body next = chLF then some ()
        else skipTrailer fuel next
      else some ()

variable (granted : Nat → Bool)

/-- The rounds of `dcc_http_decode_chunked_body`. -/
def decodeLoop : Nat → Nat → HttpBuffer → Option (Status × HttpBuffer)
  | 0, _, _ => none
  | fuel + 1, pos, out =>
    if pos < body.length then
      (sizeLine body pos).bind fun
        | none => some (.network, out)
        | some (chunkLen, pos) =>
          if chunkLen = 0 then (skipTrailer body (body.length + 1) pos).map fun _ => (.ok, out)
          else if body.length - pos < chunkLen then some (.network, out)
          else
            match out.append granted ((body.drop pos).take chunkLen) with
            | none => some (.nomem, out)
            | some out =>
              (posAdd pos chunkLen).bind fun pos =>
                (afterCrlf body pos).bind fun
                  | none => some (.network, out)
                  | some pos => decodeLoop fuel pos out
    else some (.network, out)

/-- `dcc_http_decode_chunked_body`: the status and the buffer, which is without a value
where a position wraps or the decoder does not end. -/
def decodeChunkedBody (out : HttpBuffer) : Option (Status × HttpBuffer) :=
  decodeLoop body granted (body.length + 1) 0 out

end Decoder

/-! ## Size lines -/

/-- `"\r\n"`. -/
def crlf : Bytes := [chCR, chLF]

/-- The number that hexadecimal digits continue. -/
def hexFrom (value : Nat) (digits : Bytes) : Nat :=
  digits.foldl (fun value c => value * 16 + (hexDigit c).getD 0) value

/-- The extension of a chunk: nothing, or a semicolon and the rest of a line. -/
def Extension (ext : Bytes) : Prop :=
  ext = [] ∨ ∃ e, (∀ c ∈ e, c ≠ chCR ∧ c ≠ chLF) ∧ ext = chSemicolon :: e

/-- A line that gives the size `n`: hexadecimal digits of either case, an extension and
the end of the line. -/
def SizeLine (line : Bytes) (n : Nat) : Prop :=
  ∃ digits ext, digits ≠ [] ∧ (∀ c ∈ digits, (hexDigit c).isSome) ∧ Extension ext ∧
    hexFrom 0 digits = n ∧ line = digits ++ (ext ++ crlf)

/-- A byte that is in no line. -/
def inLine (c : UInt8) : Bool := c != chCR && c != chLF

/-- What is behind a `"\r\n"`. -/
def cutLine : Bytes → Option Bytes
  | c :: d :: p => if c = chCR ∧ d = chLF then some p else none
  | _ => none

/-- The loop over a size line, on the bytes that are left. -/
def readDigits : Bytes → Nat → Bool → Option (Nat × Bool × Bytes)
  | [], len, saw => some (len, saw, [])
  | c :: p, len, saw =>
    if c = chSemicolon then some (len, saw, p.dropWhile inLine)
    else if c = chCR ∨ c = chLF then some (len, saw, c :: p)
    else
      match hexDigit c with
      | none => none
      | some h => if wordMax >>> 4 < len then none else readDigits p (len * 16 + h) true

/-- The size line at the front, with digits in front of it already read. -/
def readSizeFrom (rest : Bytes) (len : Nat) (saw : Bool) : Option (Nat × Bytes) :=
  (readDigits rest len saw).bind fun r =>
    if r.2.1 then (cutLine r.2.2).map fun p => (r.1, p) else none

/-- The size line at the front, and what is behind it. -/
def readSize (rest : Bytes) : Option (Nat × Bytes) := readSizeFrom rest 0 false

variable {c : UInt8}

theorem hexDigit_lt {h : Nat} (hc : hexDigit c = some h) : h < 16 := by
  unfold hexDigit at hc
  have hbound : c.toNat < 256 := c.toNat_lt
  split at hc
  · next hrange =>
    cases hc
    have hhi := UInt8.le_iff_toNat_le.mp hrange.2
    have hval : (0x39 : UInt8).toNat = 0x39 := rfl
    omega
  split at hc
  · next hrange =>
    cases hc
    have hhi := UInt8.le_iff_toNat_le.mp hrange.2
    have hval : (0x66 : UInt8).toNat = 0x66 := rfl
    omega
  split at hc
  · next hrange =>
    cases hc
    have hhi := UInt8.le_iff_toNat_le.mp hrange.2
    have hval : (0x46 : UInt8).toNat = 0x46 := rfl
    omega
  · cases hc

theorem digit_in_line (hc : (hexDigit c).isSome) :
    c ≠ chSemicolon ∧ c ≠ chCR ∧ c ≠ chLF := by
  refine ⟨?_, ?_, ?_⟩ <;> intro heq <;> rw [heq] at hc <;> revert hc <;> decide

theorem cutLine_eq {rest p : Bytes} : cutLine rest = some p ↔ rest = crlf ++ p := by
  constructor
  · intro h
    unfold cutLine at h
    split at h
    · split at h
      · next hends =>
        cases h
        obtain ⟨rfl, rfl⟩ := hends
        rfl
      · cases h
    · cases h
  · intro h
    rw [h]
    rfl

theorem le_hexFrom (value : Nat) (digits : Bytes) : value ≤ hexFrom value digits := by
  induction digits generalizing value with
  | nil => exact Nat.le_refl _
  | cons c digits ih =>
    have hle := ih (value * 16 + (hexDigit c).getD 0)
    have hstep : hexFrom value (c :: digits) =
      hexFrom (value * 16 + (hexDigit c).getD 0) digits := rfl
    omega

theorem dropWhile_inLine_split (p : Bytes) :
    ∃ e, (∀ c ∈ e, c ≠ chCR ∧ c ≠ chLF) ∧ p = e ++ p.dropWhile inLine := by
  refine ⟨p.takeWhile inLine, fun c hc => ?_, List.takeWhile_append_dropWhile.symm⟩
  have hline := List.mem_takeWhile_imp hc
  simpa [inLine] using hline

theorem dropWhile_inLine {e r : Bytes} (he : ∀ c ∈ e, c ≠ chCR ∧ c ≠ chLF) :
    (e ++ (crlf ++ r)).dropWhile inLine = crlf ++ r := by
  rw [List.dropWhile_append_of_pos]
  · rfl
  · intro c hc
    simpa [inLine] using he c hc

variable {saw : Bool}

/-- The lines that are read are size lines. -/
theorem readSize_sound {rest r : Bytes} {len n : Nat} (hlen : len < wordSize)
    (h : readSizeFrom rest len saw = some (n, r)) :
    ∃ digits ext, (saw = true ∨ digits ≠ []) ∧ (∀ c ∈ digits, (hexDigit c).isSome) ∧
      Extension ext ∧ hexFrom len digits = n ∧ n < wordSize ∧
      rest = digits ++ (ext ++ (crlf ++ r)) := by
  induction rest generalizing len saw with
  | nil =>
    have hstop : readSizeFrom [] len saw = none := by cases saw <;> rfl
    rw [hstop] at h
    cases h
  | cons c p ih =>
    rw [readSizeFrom, readDigits] at h
    by_cases hsemi : c = chSemicolon
    · rw [if_pos hsemi, Option.bind_some] at h
      cases saw with
      | false => cases h
      | true =>
        obtain ⟨q, hq, heq⟩ := Option.map_eq_some_iff.mp h
        obtain ⟨rfl, rfl⟩ := Prod.mk.inj heq
        obtain ⟨e, he, hsplit⟩ := dropWhile_inLine_split p
        have hcut : p.dropWhile inLine = crlf ++ q := cutLine_eq.mp hq
        rw [hcut] at hsplit
        exact ⟨[], chSemicolon :: e, .inl rfl, by simp, .inr ⟨e, he, rfl⟩, rfl, hlen,
          by rw [hsemi, hsplit]; rfl⟩
    rw [if_neg hsemi] at h
    by_cases hends : c = chCR ∨ c = chLF
    · rw [if_pos hends, Option.bind_some] at h
      cases saw with
      | false => cases h
      | true =>
        obtain ⟨q, hq, heq⟩ := Option.map_eq_some_iff.mp h
        obtain ⟨rfl, rfl⟩ := Prod.mk.inj heq
        exact ⟨[], [], .inl rfl, by simp, .inl rfl, rfl, hlen, cutLine_eq.mp hq⟩
    rw [if_neg hends] at h
    cases hdigit : hexDigit c with
    | none =>
      simp only [hdigit, Option.bind_none] at h
      cases h
    | some d =>
      simp only [hdigit] at h
      by_cases hover : wordMax >>> 4 < len
      · rw [if_pos hover] at h
        cases h
      rw [if_neg hover] at h
      have hd := hexDigit_lt hdigit
      have hnext : len * 16 + d < wordSize := by
        have hshift : wordMax >>> 4 = 2 ^ 60 - 1 := by decide
        have hsize : wordSize = 2 ^ 64 := rfl
        omega
      obtain ⟨digits, ext, -, hdigits, hext, hvalue, hn, hrest⟩ := ih hnext h
      refine ⟨c :: digits, ext, .inr (List.cons_ne_nil _ _), ?_, hext, ?_, hn, ?_⟩
      · rw [List.forall_mem_cons]
        exact ⟨by rw [hdigit]; rfl, hdigits⟩
      · rw [← hvalue, hexFrom, List.foldl_cons, hdigit]
        rfl
      · rw [hrest]
        rfl

theorem readSize_complete {digits ext r : Bytes} {len n : Nat}
    (hsaw : saw = true ∨ digits ≠ []) (hdigits : ∀ c ∈ digits, (hexDigit c).isSome)
    (hext : Extension ext) (hvalue : hexFrom len digits = n) (hn : n < wordSize) :
    readSizeFrom (digits ++ (ext ++ (crlf ++ r))) len saw = some (n, r) := by
  induction digits generalizing len saw with
  | nil =>
    obtain rfl : saw = true := by simpa using hsaw
    obtain rfl : len = n := hvalue
    have hcut : cutLine (crlf ++ r) = some r := cutLine_eq.mpr rfl
    obtain rfl | ⟨e, he, rfl⟩ := hext
    · rfl
    · rw [List.nil_append, List.cons_append, readSizeFrom, readDigits, if_pos rfl,
        Option.bind_some, if_pos rfl, dropWhile_inLine he, hcut]
      rfl
  | cons c digits ih =>
    rw [List.forall_mem_cons] at hdigits
    obtain ⟨hc, hdigits⟩ := hdigits
    obtain ⟨hsemi, hcr, hlf⟩ := digit_in_line hc
    obtain ⟨d, hd⟩ := Option.isSome_iff_exists.mp hc
    have hvalue' : hexFrom (len * 16 + d) digits = n := by
      rw [← hvalue, hexFrom, hexFrom, List.foldl_cons, hd]
      rfl
    have hroom : ¬ wordMax >>> 4 < len := by
      have hle := le_hexFrom (len * 16 + d) digits
      have hshift : wordMax >>> 4 = 2 ^ 60 - 1 := by decide
      have hsize : wordSize = 2 ^ 64 := rfl
      omega
    have hrest : readSizeFrom (digits ++ (ext ++ (crlf ++ r))) (len * 16 + d) true = some (n, r) :=
      ih (.inl rfl) hdigits hvalue'
    rw [List.cons_append, readSizeFrom, readDigits, if_neg hsemi,
      if_neg (not_or.mpr ⟨hcr, hlf⟩), hd]
    simp only [if_neg hroom]
    exact hrest

/-- **The size lines that are read** are those of the grammar whose size fits in 64 bits. -/
theorem readSize_iff {rest r : Bytes} {n : Nat} :
    readSize rest = some (n, r) ↔ ∃ line, SizeLine line n ∧ n < wordSize ∧ rest = line ++ r := by
  constructor
  · intro h
    obtain ⟨digits, ext, hne, hdigits, hext, hvalue, hn, hrest⟩ :=
      readSize_sound (by decide) h
    have hne : digits ≠ [] := by simpa using hne
    exact ⟨_, ⟨digits, ext, hne, hdigits, hext, hvalue, rfl⟩, hn, by simp [hrest]⟩
  · intro h
    obtain ⟨line, ⟨digits, ext, hne, hdigits, hext, hvalue, rfl⟩, hn, rfl⟩ := h
    have hread : readSizeFrom (digits ++ (ext ++ (crlf ++ r))) 0 false = some (n, r) :=
      readSize_complete (.inr hne) hdigits hext hvalue hn
    simpa [readSize] using hread

/-! ## Positions and the rest of the body -/

section Positions

variable {body rest : Bytes} {pos fuel : Nat}

/-- The bytes from the position on. -/
def Follows (body : Bytes) (pos : Nat) (rest : Bytes) : Prop :=
  pos ≤ body.length ∧ body.drop pos = rest

theorem Follows.length (h : Follows body pos rest) : pos + rest.length = body.length := by
  obtain ⟨hle, rfl⟩ := h
  rw [List.length_drop]
  omega

theorem Follows.drop {n : Nat} (h : Follows body pos rest) (hn : n ≤ rest.length) :
    Follows body (pos + n) (rest.drop n) := by
  have hlength := h.length
  obtain ⟨-, rfl⟩ := h
  exact ⟨by omega, by rw [List.drop_drop]⟩

theorem Follows.byte {p : Bytes} (h : Follows body pos (c :: p)) :
    byteAt body pos = c ∧ pos < body.length ∧ Follows body (pos + 1) p := by
  have hlength := h.length
  rw [List.length_cons] at hlength
  have hnext := h.drop (n := 1) (by simp)
  obtain ⟨-, hdrop⟩ := h
  refine ⟨?_, by omega, hnext⟩
  rw [byteAt, List.getD_eq_getElem?_getD, ← List.head?_drop, hdrop]
  rfl

theorem posAdd_of_le {n : Nat} (h : pos + n < wordSize) : posAdd pos n = some (pos + n) := if_pos h

/-- A position and the bytes from it on, where there is one. -/
abbrev Tracks (body : Bytes) : Option Nat → Option Bytes → Prop := Option.Rel (Follows body)

variable (hbody : body.length + 2 < wordSize)

include hbody

theorem afterCrlf_tracks (h : Follows body pos rest) :
    ∃ next, afterCrlf body pos = some next ∧ Tracks body next (cutLine rest) := by
  have hlength := h.length
  rw [afterCrlf, posAdd_of_le (by omega), Option.map_some]
  refine ⟨_, rfl, ?_⟩
  cases rest with
  | nil =>
    rw [if_pos (.inl (by simp at hlength; omega))]
    exact Option.Rel.none
  | cons c rest =>
    obtain ⟨hc, -, hnext⟩ := h.byte
    cases rest with
    | nil =>
      rw [if_pos (.inl (by simp at hlength; omega))]
      exact Option.Rel.none
    | cons d p =>
      obtain ⟨hd, -, hafter⟩ := hnext.byte
      have hroom : ¬ body.length < pos + 2 := by simp at hlength; omega
      rw [hc, hd, cutLine]
      by_cases hends : c = chCR ∧ d = chLF
      · rw [if_pos hends, if_neg (by simp [hroom, hends])]
        exact Option.Rel.some hafter
      · have hstop : body.length < pos + 2 ∨ c ≠ chCR ∨ d ≠ chLF :=
          .inr (not_and_or.mp hends)
        rw [if_neg hends, if_pos hstop]
        exact Option.Rel.none

theorem skipExtension_tracks (h : Follows body pos rest) (hfuel : rest.length < fuel) :
    ∃ next, skipExtension body fuel pos = some next ∧
      Follows body next (rest.dropWhile inLine) := by
  induction fuel generalizing pos rest with
  | zero => exact absurd hfuel (Nat.not_lt_zero _)
  | succ fuel ih =>
    have hlength := h.length
    rw [skipExtension]
    cases rest with
    | nil =>
      rw [if_neg (by simp at hlength; omega)]
      exact ⟨pos, rfl, h⟩
    | cons c p =>
      obtain ⟨hc, hlt, hnext⟩ := h.byte
      rw [List.length_cons] at hfuel
      by_cases hline : c ≠ chCR ∧ c ≠ chLF
      · obtain ⟨next, hskip, hfollows⟩ := ih hnext (by omega)
        rw [hc, if_pos ⟨hlt, hline⟩, posAdd_of_le (by omega), Option.bind_some,
          List.dropWhile_cons_of_pos (by simpa [inLine] using hline)]
        exact ⟨next, hskip, hfollows⟩
      · rw [hc, if_neg fun hall => hline hall.2,
          List.dropWhile_cons_of_neg (by simpa [inLine] using hline)]
        exact ⟨pos, rfl, h⟩

/-- What the loop over a size line leaves behind, at the position and on the bytes. -/
def Scans (body : Bytes) (scan : SizeScan) (r : Nat × Bool × Bytes) : Prop :=
  scan.chunkLen = r.1 ∧ scan.sawDigit = r.2.1 ∧ Follows body scan.pos r.2.2

theorem sizeLoop_tracks {len : Nat} (h : Follows body pos rest) (hfuel : rest.length < fuel) :
    ∃ o, sizeLoop body fuel ⟨pos, len, saw⟩ = some o ∧
      Option.Rel (Scans body) o (readDigits rest len saw) := by
  induction fuel generalizing pos rest len saw with
  | zero => exact absurd hfuel (Nat.not_lt_zero _)
  | succ fuel ih =>
    have hlength := h.length
    rw [sizeLoop]
    cases rest with
    | nil =>
      rw [if_neg (by simp at hlength; simp; omega)]
      exact ⟨_, rfl, Option.Rel.some ⟨rfl, rfl, h⟩⟩
    | cons c p =>
      obtain ⟨hc, hlt, hnext⟩ := h.byte
      rw [List.length_cons] at hfuel
      simp only [if_pos hlt, posAdd_of_le (show pos + 1 < wordSize by omega),
        Option.bind_some, hc, readDigits]
      by_cases hsemi : c = chSemicolon
      · have hfits : p.length < fuel := by omega
        obtain ⟨next, hskip, hfollows⟩ := skipExtension_tracks hbody hnext hfits
        rw [if_pos hsemi, if_pos hsemi, hskip, Option.map_some]
        exact ⟨_, rfl, Option.Rel.some ⟨rfl, rfl, hfollows⟩⟩
      rw [if_neg hsemi, if_neg hsemi]
      by_cases hends : c = chCR ∨ c = chLF
      · rw [if_pos hends, if_pos hends]
        exact ⟨_, rfl, Option.Rel.some ⟨rfl, rfl, h⟩⟩
      rw [if_neg hends, if_neg hends]
      cases hdigit : hexDigit c with
      | none => exact ⟨_, rfl, Option.Rel.none⟩
      | some d =>
        by_cases hover : wordMax >>> 4 < len
        · simp only [if_pos hover]
          exact ⟨_, rfl, Option.Rel.none⟩
        · have hshift : ((len <<< 4) % wordSize) ||| d = len * 16 + d := by
            have hbound : wordMax >>> 4 = 2 ^ 60 - 1 := by decide
            have hsize : wordSize = 2 ^ 64 := rfl
            rw [Nat.mod_eq_of_lt (by rw [Nat.shiftLeft_eq]; omega),
              ← Nat.shiftLeft_add_eq_or_of_lt (hexDigit_lt hdigit), Nat.shiftLeft_eq]
          simp only [if_neg hover, hshift]
          exact ih hnext (by omega)

/-- The size of a chunk with the position of its data, and with its bytes. -/
def Sizes (body : Bytes) (a : Nat × Nat) (b : Nat × Bytes) : Prop :=
  a.1 = b.1 ∧ Follows body a.2 b.2

theorem sizeLine_tracks (h : Follows body pos rest) :
    ∃ o, sizeLine body pos = some o ∧ Option.Rel (Sizes body) o (readSize rest) := by
  have hlength := h.length
  have hscan : ∃ o, sizeLoop body (body.length + 1) ⟨pos, 0, false⟩ = some o ∧
      Option.Rel (Scans body) o (readDigits rest 0 false) := sizeLoop_tracks hbody h (by omega)
  obtain ⟨o, hloop, hrel⟩ := hscan
  rw [sizeLine, hloop, Option.bind_some, readSize, readSizeFrom]
  generalize readDigits rest 0 false = digits at hrel ⊢
  cases hrel with
  | none => exact ⟨none, rfl, Option.Rel.none⟩
  | @some scan r hscan =>
    obtain ⟨hlen, hsaw, hfollows⟩ := hscan
    simp only [Option.bind_some, hsaw]
    by_cases hdigits : r.2.1 = true
    · obtain ⟨next, hnext, htracks⟩ := afterCrlf_tracks hbody hfollows
      rw [if_pos hdigits, if_pos hdigits, hnext, Option.map_some]
      refine ⟨_, rfl, ?_⟩
      generalize cutLine r.2.2 = line at htracks ⊢
      cases htracks with
      | none => exact Option.Rel.none
      | some hafter => exact Option.Rel.some ⟨hlen, hafter⟩
    · rw [if_neg hdigits, if_neg hdigits]
      exact ⟨none, rfl, Option.Rel.none⟩

theorem skipTrailer_ends (h : Follows body pos rest) (hfuel : rest.length < fuel) :
    skipTrailer body fuel pos = some () := by
  induction fuel generalizing pos rest with
  | zero => exact absurd hfuel (Nat.not_lt_zero _)
  | succ fuel ih =>
    have hlength := h.length
    rw [skipTrailer, posAdd_of_le (by omega), Option.bind_some]
    by_cases hmore : pos + 1 < body.length
    · rw [if_pos hmore]
      split
      · rfl
      · have hnext := h.drop (n := 1) (by omega)
        exact ih hnext (by rw [List.length_drop]; omega)
    · rw [if_neg hmore]

end Positions

/-! ## The decoder on the rest of the body -/

/-- A run of the decoder over the bytes that are left: what is in the buffer before and
after it, and its status. -/
inductive Decodes (granted : Nat → Bool) : Bytes → HttpBuffer → Status → HttpBuffer → Prop
  | malformed {rest : Bytes} {out : HttpBuffer} (h : readSize rest = none) :
      Decodes granted rest out .network out
  | last {rest r : Bytes} {out : HttpBuffer} (h : readSize rest = some (0, r)) :
      Decodes granted rest out .ok out
  | short {rest r : Bytes} {out : HttpBuffer} {n : Nat} (h : readSize rest = some (n, r))
      (hlt : r.length < n) : Decodes granted rest out .network out
  | nomem {rest r : Bytes} {out : HttpBuffer} {n : Nat} (h : readSize rest = some (n, r))
      (hn : 0 < n) (hle : n ≤ r.length) (happend : out.append granted (r.take n) = none) :
      Decodes granted rest out .nomem out
  | unended {rest r : Bytes} {out out' : HttpBuffer} {n : Nat}
      (h : readSize rest = some (n, r)) (hn : 0 < n) (hle : n ≤ r.length)
      (happend : out.append granted (r.take n) = some out') (hcut : cutLine (r.drop n) = none) :
      Decodes granted rest out .network out'
  | chunk {rest r r' : Bytes} {out out' final : HttpBuffer} {n : Nat} {status : Status}
      (h : readSize rest = some (n, r)) (hn : 0 < n) (hle : n ≤ r.length)
      (happend : out.append granted (r.take n) = some out')
      (hcut : cutLine (r.drop n) = some r') (hrest : Decodes granted r' out' status final) :
      Decodes granted rest out status final

theorem readSize_length {rest r : Bytes} {n : Nat} (h : readSize rest = some (n, r)) :
    r.length + 3 ≤ rest.length := by
  obtain ⟨line, ⟨digits, ext, hne, -, -, -, rfl⟩, -, rfl⟩ := readSize_iff.mp h
  have hdigits := List.length_pos_iff.mpr hne
  simp only [List.length_append, crlf, List.length_cons, List.length_nil]
  omega

/-- **The decoder follows the rest of the body**, and no position wraps. -/
theorem decodeLoop_drop {body rest : Bytes} {pos fuel : Nat} {out : HttpBuffer}
    (granted : Nat → Bool) (hbody : body.length + 2 < wordSize) (h : Follows body pos rest)
    (hfuel : rest.length < fuel) :
    ∃ status final, decodeLoop body granted fuel pos out = some (status, final) ∧
      Decodes granted rest out status final := by
  induction fuel generalizing pos rest out with
  | zero => exact absurd hfuel (Nat.not_lt_zero _)
  | succ fuel ih =>
    have hlength := h.length
    rw [decodeLoop]
    by_cases hmore : pos < body.length
    case neg =>
      obtain rfl : rest = [] := List.length_eq_zero_iff.mp (by omega)
      rw [if_neg hmore]
      exact ⟨_, _, rfl, .malformed rfl⟩
    obtain ⟨o, hline, hsizes⟩ := sizeLine_tracks hbody h
    rw [if_pos hmore, hline, Option.bind_some]
    generalize hread : readSize rest = size at hsizes
    cases hsizes with
    | none => exact ⟨_, _, rfl, .malformed hread⟩
    | @some a b hsize =>
      obtain ⟨n, next⟩ := a
      obtain ⟨n', r⟩ := b
      obtain ⟨hn, hnext⟩ := hsize
      change n = n' at hn
      change Follows body next r at hnext
      subst hn
      have hnextLength := hnext.length
      by_cases hzero : n = 0
      · have htrailer : skipTrailer body (body.length + 1) next = some () :=
          skipTrailer_ends hbody hnext (by omega)
        simp only [if_pos hzero, htrailer, Option.map_some]
        exact ⟨_, _, rfl, .last (hzero ▸ hread)⟩
      have hpos : 0 < n := Nat.pos_of_ne_zero hzero
      by_cases hshort : body.length - next < n
      · simp only [if_neg hzero, if_pos hshort]
        exact ⟨_, _, rfl, .short hread (by omega)⟩
      have hle : n ≤ r.length := by omega
      have hdata : (body.drop next).take n = r.take n := by rw [hnext.2]
      simp only [if_neg hzero, if_neg hshort, hdata]
      cases happend : out.append granted (r.take n) with
      | none => exact ⟨_, _, rfl, .nomem hread hpos hle happend⟩
      | some out' =>
        have hend := hnext.drop hle
        obtain ⟨o, hafter, htracks⟩ := afterCrlf_tracks hbody hend
        simp only [posAdd_of_le (show next + n < wordSize by omega), Option.bind_some, hafter]
        generalize hcut : cutLine (r.drop n) = cut at htracks
        cases htracks with
        | none => exact ⟨_, _, rfl, .unended hread hpos hle happend hcut⟩
        | @some pos' r' hfollows =>
          have hshorter := readSize_length hread
          have hcutLength := congrArg List.length (cutLine_eq.mp hcut)
          simp only [List.length_drop, List.length_append] at hcutLength
          have hfits : r'.length < fuel := by omega
          obtain ⟨status, final, hloop, hdecodes⟩ := @ih _ _ out' hfollows hfits
          exact ⟨status, final, hloop, .chunk hread hpos hle happend hcut hdecodes⟩

/-! ## Chunked bodies -/

/-- A chunk with data: a size line, the data and the end of its line. -/
structure Chunk where
  line : Bytes
  data : Bytes
  sized : SizeLine line data.length
  nonempty : data ≠ []

def Chunk.encode (c : Chunk) : Bytes := c.line ++ (c.data ++ crlf)

/-- A chunked body: chunks, the line of the last chunk, and a trailer. -/
structure ChunkedBody where
  chunks : List Chunk
  last : Bytes
  final : SizeLine last 0
  trailer : Bytes

namespace ChunkedBody

def encode (b : ChunkedBody) : Bytes := b.chunks.flatMap Chunk.encode ++ (b.last ++ b.trailer)

/-- The data of the chunks, put together. -/
def payload (b : ChunkedBody) : Bytes := b.chunks.flatMap Chunk.data

end ChunkedBody

/-- No chunk is at the front of these bytes: there is no size line, or the bytes end inside
the chunk, or its data goes on past its size. -/
inductive Broken : Bytes → Prop
  | line {p : Bytes} (h : ∀ line n r, SizeLine line n → p ≠ line ++ r) : Broken p
  | short {line r : Bytes} {n : Nat} (hline : SizeLine line n) (hn : 0 < n)
      (hlt : r.length < n + 2) : Broken (line ++ r)
  | unended {line data r : Bytes} (hline : SizeLine line data.length) (hne : data ≠ [])
      (h : ∀ p, r ≠ crlf ++ p) : Broken (line ++ (data ++ r))

section Runs

variable {granted : Nat → Bool} {rest tail : Bytes} {out final : HttpBuffer} {status : Status}

theorem Decodes.sound (h : Decodes granted rest out status final) (hok : status = .ok) :
    ∃ b : ChunkedBody, rest = b.encode ∧ final.data = out.data ++ b.payload := by
  induction h with
  | malformed => cases hok
  | short => cases hok
  | nomem => cases hok
  | unended => cases hok
  | last hread =>
    obtain ⟨line, hline, -, rfl⟩ := readSize_iff.mp hread
    exact ⟨⟨[], line, hline, _⟩, rfl, by simp [ChunkedBody.payload]⟩
  | @chunk rest r r' out out' final n status hread hn hle happend hcut hrest ih =>
    obtain ⟨b, rfl, hdata⟩ := ih hok
    obtain ⟨line, hline, -, rfl⟩ := readSize_iff.mp hread
    have hlength : (r.take n).length = n := List.length_take_of_le hle
    have hsplit : r.take n ++ (crlf ++ b.encode) = r := by
      rw [← cutLine_eq.mp hcut, List.take_append_drop]
    have hne : r.take n ≠ [] := List.length_pos_iff.mp (by omega)
    refine ⟨⟨⟨line, r.take n, by rwa [hlength], hne⟩ :: b.chunks, b.last, b.final, b.trailer⟩,
      ?_, ?_⟩
    · calc line ++ r = line ++ (r.take n ++ (crlf ++ b.encode)) := by rw [hsplit]
        _ = _ := by simp [ChunkedBody.encode, Chunk.encode]
    · rw [hdata, HttpBuffer.append_data happend]
      simp [ChunkedBody.payload]

theorem Decodes.takes {c : Chunk} (hfits : (c.encode ++ tail).length < wordSize)
    (h : Decodes granted (c.encode ++ tail) out status final) :
    status = .nomem ∨
      ∃ next, next.data = out.data ++ c.data ∧ Decodes granted tail next status final := by
  have hword : c.data.length < wordSize := by
    simp only [Chunk.encode, List.length_append] at hfits
    omega
  have hread : readSize (c.encode ++ tail) = some (c.data.length, c.data ++ (crlf ++ tail)) :=
    readSize_iff.mpr ⟨c.line, c.sized, hword, by simp [Chunk.encode]⟩
  have hpos := List.length_pos_iff.mpr c.nonempty
  cases h with
  | malformed hnone =>
    rw [hread] at hnone
    cases hnone
  | last hzero =>
    rw [hread] at hzero
    obtain ⟨hlength, -⟩ := Prod.mk.inj (Option.some.inj hzero)
    omega
  | short hsize hlt =>
    rw [hread] at hsize
    obtain ⟨rfl, rfl⟩ := Prod.mk.inj (Option.some.inj hsize)
    simp only [List.length_append] at hlt
    omega
  | nomem => exact .inl rfl
  | unended hsize _ _ _ hcut =>
    rw [hread] at hsize
    obtain ⟨rfl, rfl⟩ := Prod.mk.inj (Option.some.inj hsize)
    rw [List.drop_left, cutLine_eq.mpr rfl] at hcut
    cases hcut
  | chunk hsize _ _ happend hcut hrest =>
    rw [hread] at hsize
    obtain ⟨rfl, rfl⟩ := Prod.mk.inj (Option.some.inj hsize)
    rw [List.take_left] at happend
    rw [List.drop_left, cutLine_eq.mpr rfl] at hcut
    obtain rfl := Option.some.inj hcut
    exact .inr ⟨_, HttpBuffer.append_data happend, hrest⟩

theorem Decodes.takes_all {cs : List Chunk}
    (hfits : (cs.flatMap Chunk.encode ++ tail).length < wordSize)
    (h : Decodes granted (cs.flatMap Chunk.encode ++ tail) out status final) :
    status = .nomem ∨ ∃ next, next.data = out.data ++ cs.flatMap Chunk.data ∧
      Decodes granted tail next status final := by
  induction cs generalizing out with
  | nil => exact .inr ⟨out, by simp, h⟩
  | cons c cs ih =>
    rw [List.flatMap_cons, List.append_assoc] at h hfits
    obtain hnomem | ⟨next, hdata, hrest⟩ := h.takes hfits
    · exact .inl hnomem
    rw [List.length_append] at hfits
    obtain hnomem | ⟨last, hlast, hdone⟩ := ih (by omega) hrest
    · exact .inl hnomem
    · exact .inr ⟨last, by rw [hlast, hdata, List.flatMap_cons, List.append_assoc], hdone⟩

theorem Decodes.done {last trailer : Bytes} (hlast : SizeLine last 0)
    (h : Decodes granted (last ++ trailer) out status final) : status = .ok ∧ final = out := by
  have hread : readSize (last ++ trailer) = some (0, trailer) :=
    readSize_iff.mpr ⟨last, hlast, by decide, rfl⟩
  have hzero : ∀ {n : Nat} {r : Bytes}, readSize (last ++ trailer) = some (n, r) → ¬ 0 < n := by
    intro n r hsize
    rw [hread] at hsize
    cases hsize
    exact Nat.lt_irrefl 0
  cases h with
  | last => exact ⟨rfl, rfl⟩
  | malformed hnone =>
    rw [hread] at hnone
    cases hnone
  | short hsize hlt => exact absurd (Nat.zero_lt_of_lt hlt) (hzero hsize)
  | nomem hsize hn => exact absurd hn (hzero hsize)
  | unended hsize hn => exact absurd hn (hzero hsize)
  | chunk hsize hn => exact absurd hn (hzero hsize)

theorem Decodes.has_memory (hgranted : ∀ n, granted n = true)
    (h : Decodes granted rest out status final) (hfits : out.data.length + rest.length < 2 ^ 63) :
    status ≠ .nomem := by
  induction h with
  | malformed => decide
  | last => decide
  | short => decide
  | unended => decide
  | @nomem rest r out n hread hn hle happend =>
    have hshorter := readSize_length hread
    have hroom : out.data.length + (r.take n).length < 2 ^ 63 := by
      rw [List.length_take]
      omega
    obtain ⟨next, hnext⟩ := HttpBuffer.append_isSome hgranted hroom
    rw [hnext] at happend
    cases happend
  | chunk hread hn hle happend hcut hrest ih =>
    apply ih
    have hshorter := readSize_length hread
    have hcutLength := congrArg List.length (cutLine_eq.mp hcut)
    rw [HttpBuffer.append_data happend]
    simp only [List.length_append, List.length_take, List.length_drop] at hcutLength ⊢
    omega

end Runs

/-! ## No chunked body is broken -/

section Unique

variable {line line' r r' : Bytes} {n n' : Nat}

theorem SizeLine.determined (h : SizeLine line n) :
    n = hexFrom 0 ((line ++ r).takeWhile fun c => (hexDigit c).isSome) ∧
      crlf ++ r = (line ++ r).dropWhile inLine := by
  obtain ⟨digits, ext, -, hdigits, hext, rfl, rfl⟩ := h
  have hsplit : digits ++ (ext ++ crlf) ++ r = digits ++ (ext ++ (crlf ++ r)) := by simp
  rw [hsplit]
  constructor
  · rw [List.takeWhile_append_of_pos hdigits]
    obtain rfl | ⟨e, -, rfl⟩ := hext
    · simp [crlf, show (hexDigit chCR).isSome = false from by decide]
    · simp [show (hexDigit chSemicolon).isSome = false from by decide]
  · have hin : ∀ c ∈ digits, inLine c = true := by
      intro c hc
      have hline := digit_in_line (hdigits c hc)
      simpa [inLine] using hline.2
    rw [List.dropWhile_append_of_pos hin]
    obtain rfl | ⟨e, he, rfl⟩ := hext
    · rfl
    · rw [List.cons_append, List.dropWhile_cons_of_pos (by decide), dropWhile_inLine he]

theorem SizeLine.unique (h : SizeLine line n) (h' : SizeLine line' n')
    (heq : line ++ r = line' ++ r') : n = n' ∧ r = r' := by
  obtain ⟨hn, hr⟩ := h.determined (r := r)
  obtain ⟨hn', hr'⟩ := h'.determined (r := r')
  rw [heq] at hn hr
  exact ⟨hn.trans hn'.symm, List.append_cancel_left (hr.trans hr'.symm)⟩

end Unique

theorem ChunkedBody.not_broken (b : ChunkedBody) : ¬ Broken b.encode := by
  intro hbroken
  obtain ⟨chunks, last, hlast, trailer⟩ := b
  cases chunks with
  | nil =>
    rw [encode, List.flatMap_nil, List.nil_append] at hbroken
    generalize hbytes : last ++ trailer = bytes at hbroken
    cases hbroken with
    | line h => exact h _ _ _ hlast hbytes.symm
    | short hline hn =>
      obtain ⟨rfl, -⟩ := hlast.unique hline hbytes
      exact absurd hn (Nat.not_lt_zero _)
    | unended hline hne =>
      obtain ⟨hzero, -⟩ := hlast.unique hline hbytes
      exact hne (List.length_eq_zero_iff.mp hzero.symm)
  | cons c cs =>
    have hsplit : encode ⟨c :: cs, last, hlast, trailer⟩ =
        c.line ++ (c.data ++ (crlf ++ encode ⟨cs, last, hlast, trailer⟩)) := by
      simp [encode, Chunk.encode]
    rw [hsplit] at hbroken
    generalize hbytes : c.line ++ (c.data ++ (crlf ++ encode ⟨cs, last, hlast, trailer⟩)) =
      bytes at hbroken
    cases hbroken with
    | line h => exact h _ _ _ c.sized hbytes.symm
    | short hline hn hlt =>
      obtain ⟨rfl, rfl⟩ := c.sized.unique hline hbytes
      simp only [List.length_append, crlf, List.length_cons, List.length_nil] at hlt
      omega
    | unended hline hne h =>
      obtain ⟨hlength, hrest⟩ := c.sized.unique hline hbytes
      exact h _ (List.append_inj hrest hlength).2.symm

theorem decodeChunkedBody_decodes (granted : Nat → Bool) (body : Bytes)
    (hbody : body.length < 2 ^ 63) :
    ∃ status out, decodeChunkedBody body granted .empty = some (status, out) ∧
      Decodes granted body .empty status out := by
  have hsize : wordSize = 2 ^ 64 := rfl
  have hstart : Follows body 0 body := ⟨Nat.zero_le _, rfl⟩
  exact decodeLoop_drop granted (by omega) hstart (Nat.lt_succ_self body.length)

/-- **Chunked bodies are decoded exactly.**  On every body below half of the address space
the decoder ends and no position wraps.  What it accepts is a chunked body, with its data in
the buffer; a chunked body is accepted unless memory runs out; what has no whole chunk
behind its chunks is refused. -/
theorem decode_chunked_body (granted : Nat → Bool) (body : Bytes) (hbody : body.length < 2 ^ 63) :
    ∃ status out, decodeChunkedBody body granted .empty = some (status, out) ∧
      (status = .ok → ∃ b : ChunkedBody, body = b.encode ∧ out.data = b.payload) ∧
      (∀ b : ChunkedBody, body = b.encode →
        status = .nomem ∨ (status = .ok ∧ out.data = b.payload)) ∧
      (∀ (cs : List Chunk) (tail : Bytes), body = cs.flatMap Chunk.encode ++ tail → Broken tail →
        status ≠ .ok) ∧
      ((∀ n, granted n = true) → status ≠ .nomem) := by
  have hsize : wordSize = 2 ^ 64 := rfl
  obtain ⟨status, out, hrun, hdecodes⟩ := decodeChunkedBody_decodes granted body hbody
  refine ⟨status, out, hrun, fun hok => hdecodes.sound hok, fun b hb => ?_,
    fun cs tail hb hbroken => ?_, fun hgranted => ?_⟩
  · rw [hb] at hdecodes hbody
    obtain hnomem | ⟨next, hdata, hrest⟩ :=
      Decodes.takes_all (by rw [ChunkedBody.encode] at hbody; omega) hdecodes
    · exact .inl hnomem
    · obtain ⟨hok, rfl⟩ := hrest.done b.final
      exact .inr ⟨hok, hdata⟩
  · intro hok
    rw [hb] at hdecodes hbody
    obtain hnomem | ⟨next, -, hrest⟩ := Decodes.takes_all (by omega) hdecodes
    · rw [hok] at hnomem
      cases hnomem
    · obtain ⟨b, rfl, -⟩ := hrest.sound hok
      exact b.not_broken hbroken
  · exact hdecodes.has_memory hgranted (by simpa [HttpBuffer.empty] using hbody)

/-- The chunk `abc`, with an extension, and a last chunk of two zeros. -/
theorem decode_chunked_body_abc :
    ∃ status out, decodeChunkedBody
        [0x33, 0x3b, 0x78, 13, 10, 0x61, 0x62, 0x63, 13, 10, 0x30, 0x30, 13, 10, 13, 10]
        (fun _ => true) .empty = some (status, out) ∧
      status = .ok ∧ out.data = [0x61, 0x62, 0x63] := by
  obtain ⟨status, out, hrun, -, hexact, -, hmemory⟩ :=
    decode_chunked_body (fun _ => true)
      [0x33, 0x3b, 0x78, 13, 10, 0x61, 0x62, 0x63, 13, 10, 0x30, 0x30, 13, 10, 13, 10] (by decide)
  have hsized : SizeLine [0x33, 0x3b, 0x78, 13, 10] 3 :=
    ⟨[0x33], [0x3b, 0x78], by decide, List.forall_mem_singleton.mpr rfl,
      .inr ⟨[0x78], List.forall_mem_singleton.mpr (by decide), rfl⟩, by decide, rfl⟩
  have hfinal : SizeLine [0x30, 0x30, 13, 10] 0 :=
    ⟨[0x30, 0x30], [], by decide,
      List.forall_mem_cons.mpr ⟨rfl, List.forall_mem_singleton.mpr rfl⟩, .inl rfl, by decide, rfl⟩
  have hbody := hexact ⟨[⟨_, [0x61, 0x62, 0x63], hsized, by decide⟩], _, hfinal, [13, 10]⟩ rfl
  exact ⟨status, out, hrun, hbody.resolve_left (hmemory fun _ => rfl)⟩

end Dcc.Http
