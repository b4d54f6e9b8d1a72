import Dcc.Json.Exact

/-!
# The marks of the stage-one scan

`dcc_json_stage1_scan` records the offset of every quote that opens or closes a
string and of every structural byte outside strings.  Outside a string it asks
for a mask of the next sixteen bytes, one bit for each byte of interest, and
jumps to the lowest bit.  The mask is made by one of three functions, two of
them on vectors of lanes.

* `interestingMask16_testBit` — the three functions make the same mask;
* `recordLoop_eq` — jumping is the same as looking at every byte;
* `stage1Record_exact` — status and marks are those of the scan byte by byte, and
  a text that the parser alone reads is refused at most for want of memory.
-/

namespace Dcc.Json

/-! ## Masks -/

/-- How the mask function was compiled. -/
inductive Target
  | sse2
  | neon
  | portable
  deriving DecidableEq, Repr

/-- The loop that sets bit `i` of a mask for `i < n`. -/
def maskOf (bit : Nat → Bool) : Nat → Nat
  | 0 => 0
  | n + 1 => if bit n then maskOf bit n ||| 1 <<< n else maskOf bit n

/-- `_mm_cmpeq_epi8` and `vceqq_u8` with a vector of one byte. -/
def compareLanes (data : Bytes) (byte : UInt8) : Bytes :=
  data.map fun c => if c = byte then 0xff else 0

/-- `_mm_or_si128` and `vorrq_u8`. -/
def orLanes (a b : Bytes) : Bytes := List.zipWith (· ||| ·) a b

/-- The bytes that the lanes are compared with after the opening brace. -/
def comparedBytes : Bytes :=
  [chRBrace, chLBracket, chRBracket, chColon, chComma, chQuote, chBackslash]

/-- The vector `m` of `dcc_json_stage1_interesting_mask_16`. -/
def interestingLanes (data : Bytes) : Bytes :=
  comparedBytes.foldl (fun m byte => orLanes m (compareLanes data byte))
    (compareLanes data chLBrace)

/-- `dcc_json_stage1_interesting_mask_16`: with SSE2 the top bits of the lanes, with NEON
the lanes that are not zero, else the bytes themselves. -/
def interestingMask16 (target : Target) (data : Bytes) : Nat :=
  match target with
  | .sse2 => maskOf (fun i => (interestingLanes data).getD i 0 &&& 0x80 != 0) 16
  | .neon => maskOf (fun i => (interestingLanes data).getD i 0 != 0) 16
  | .portable => maskOf (fun i => isInteresting (data.getD i 0)) 16

/-- The loop of `dcc_json_stage1_ctz32`; the value is not zero. -/
def ctzLoop : Nat → Nat → Nat → Nat
  | 0, _, count => count
  | fuel + 1, value, count =>
    if (value >>> count) &&& 1 = 0 then ctzLoop fuel value (count + 1) else count

/-- `dcc_json_stage1_ctz32`. -/
def ctz32 (value : Nat) : Nat := ctzLoop 32 value 0

theorem testBit_maskOf (bit : Nat → Bool) (n i : Nat) :
    (maskOf bit n).testBit i = (decide (i < n) && bit i) := by
  induction n with
  | zero => simp [maskOf]
  | succ n ih =>
    have hone : (1 <<< n).testBit i = decide (n = i) := by
      rw [Nat.one_shiftLeft, Nat.testBit_two_pow]
    unfold maskOf
    by_cases hi : i = n
    · subst hi
      split
      · rename_i hbit
        simp [Nat.testBit_or, hone, hbit]
      · rename_i hbit
        simp [ih, hbit]
    · have hlt : decide (i < n + 1) = decide (i < n) := by
        simp only [decide_eq_decide]
        omega
      split
      · rw [Nat.testBit_or, ih, hone, hlt, decide_eq_false (Ne.symm hi), Bool.or_false]
      · rw [ih, hlt]

/-- A comparison fills a lane or clears it. -/
def laneFlag (p : Bool) : UInt8 := if p then 0xff else 0

theorem laneFlag_or (p q : Bool) : laneFlag p ||| laneFlag q = laneFlag (p || q) := by
  cases p <;> cases q <;> decide

theorem foldl_orLanes (data bytes : Bytes) (f : UInt8 → Bool) :
    bytes.foldl (fun m byte => orLanes m (compareLanes data byte)) (data.map fun c => laneFlag (f c)) =
      data.map fun c => laneFlag (bytes.foldl (fun seen byte => seen || c == byte) (f c)) := by
  induction bytes generalizing f with
  | nil => rfl
  | cons byte bytes ih =>
    have hlanes : orLanes (data.map fun c => laneFlag (f c)) (compareLanes data byte) =
        data.map fun c => laneFlag (f c || c == byte) := by
      rw [orLanes, compareLanes, List.zipWith_map, List.zipWith_self]
      refine List.map_congr_left fun c _ => ?_
      rw [← laneFlag_or]
      simp [laneFlag]
    rw [List.foldl_cons, hlanes, ih]
    rfl

theorem interestingLanes_eq (data : Bytes) :
    interestingLanes data = data.map fun c => laneFlag (isInteresting c) := by
  have hfirst : compareLanes data chLBrace = data.map fun c => laneFlag (c == chLBrace) := by
    simp [compareLanes, laneFlag]
  rw [interestingLanes, hfirst, foldl_orLanes]
  rfl

variable {data : Bytes}

/-- **The three functions make the same mask.** -/
theorem interestingMask16_testBit (target : Target) (hdata : data.length = 16) (i : Nat) :
    (interestingMask16 target data).testBit i = data[i]?.any isInteresting := by
  have hbit : ∀ h : i < data.length, data[i]?.any isInteresting = isInteresting data[i] := by
    intro h
    rw [List.getElem?_eq_getElem h]
    rfl
  by_cases hi : i < 16
  · have hlt : i < data.length := by omega
    have hlane : (interestingLanes data).getD i 0 = laneFlag (isInteresting data[i]) := by
      rw [interestingLanes_eq]
      simp [hlt]
    rw [hbit hlt]
    cases target with
    | sse2 =>
      have htop : ∀ p, (laneFlag p &&& 0x80 != 0) = p := by decide
      rw [interestingMask16, testBit_maskOf, hlane, htop]
      simp [hi]
    | neon =>
      have hfilled : ∀ p, (laneFlag p != 0) = p := by decide
      rw [interestingMask16, testBit_maskOf, hlane, hfilled]
      simp [hi]
    | portable =>
      rw [interestingMask16, testBit_maskOf]
      simp [hi, hlt]
  · have hnone : data[i]? = none := List.getElem?_eq_none (by omega)
    rw [hnone]
    cases target <;> rw [interestingMask16, testBit_maskOf] <;> simp [hi]

theorem ctzLoop_eq {value lowest : Nat} (hset : value.testBit lowest = true)
    (hbelow : ∀ j < lowest, value.testBit j = false) :
    ∀ fuel count, count ≤ lowest → lowest < count + fuel → ctzLoop fuel value count = lowest := by
  intro fuel
  induction fuel with
  | zero =>
    intro count hle hlt
    omega
  | succ fuel ih =>
    intro count hle hlt
    have hbit : (value >>> count) &&& 1 = 0 ↔ value.testBit count = false := by
      rw [Nat.testBit, Nat.and_comm]
      simp
    unfold ctzLoop
    by_cases hhere : count = lowest
    · rw [if_neg (by rw [hbit, hhere, hset]; simp), hhere]
    · rw [if_pos (hbit.mpr (hbelow count (by omega)))]
      exact ih (count + 1) (by omega) (by omega)

theorem ctz32_interesting (target : Target) (hdata : data.length = 16) {i : Nat}
    (hfirst : data.findIdx? isInteresting = some i) :
    ctz32 (interestingMask16 target data) = i := by
  obtain ⟨hlt, hhere, hbefore⟩ := List.findIdx?_eq_some_iff_getElem.mp hfirst
  refine ctzLoop_eq ?_ ?_ 32 0 (Nat.zero_le i) (by omega)
  · rw [interestingMask16_testBit target hdata, List.getElem?_eq_getElem hlt]
    exact hhere
  · intro j hj
    rw [interestingMask16_testBit target hdata, List.getElem?_eq_getElem (hj.trans hlt)]
    simpa using hbefore j hj

theorem interestingMask16_eq_zero_iff (target : Target) (hdata : data.length = 16) :
    interestingMask16 target data = 0 ↔ data.findIdx? isInteresting = none := by
  rw [List.findIdx?_eq_none_iff]
  constructor
  · intro hzero c hc
    obtain ⟨i, hi, rfl⟩ := List.mem_iff_getElem.mp hc
    have hbit := interestingMask16_testBit target hdata i
    rw [hzero, Nat.zero_testBit, List.getElem?_eq_getElem hi] at hbit
    exact hbit.symm
  · intro hnone
    apply Nat.eq_of_testBit_eq
    intro i
    rw [interestingMask16_testBit target hdata, Nat.zero_testBit]
    cases hbyte : data[i]? with
    | none => rfl
    | some c => exact hnone c (List.mem_of_getElem? hbyte)

/-! ## The scan -/

/-- `dcc_json_next_cap`. -/
def nextCap (current initial elemSize : Nat) : Option Nat :=
  if current ≠ 0 ∧ current > wordMax / 2 then none
  else
    let next := if current ≠ 0 then current * 2 else initial
    if next > wordMax / elemSize then none else some next

theorem nextCap_gt {current initial elemSize next : Nat} (hinitial : 0 < initial)
    (h : nextCap current initial elemSize = some next) : current < next := by
  unfold nextCap at h
  split at h
  · simp at h
  · simp only at h
    by_cases hzero : current = 0
    · subst hzero
      simp only [ne_eq, not_true_eq_false, if_false] at h
      split at h
      · simp at h
      · rwa [← Option.some.inj h]
    · simp only [ne_eq, hzero, not_false_eq_true, if_true] at h
      split at h
      · simp at h
      · rw [← Option.some.inj h]
        omega

/-- `dcc_json_stage1_t`. -/
structure Stage1 where
  marks : List Nat
  cap : Nat
  fits : marks.length ≤ cap

/-- `{0}`. -/
def Stage1.empty : Stage1 := ⟨[], 0, Nat.le_refl 0⟩

/-- `dcc_json_stage1_push`; `realloc` tells whether there is memory for a capacity. -/
def Stage1.push (realloc : Nat → Bool) (s : Stage1) (mark : Nat) : Option Stage1 :=
  if hfull : s.marks.length = s.cap then
    match hnext : nextCap s.cap 128 8 with
    | none => none
    | some cap =>
      if realloc cap then
        some ⟨s.marks ++ [mark], cap, by
          have := nextCap_gt (by decide) hnext
          rw [List.length_append, List.length_singleton]
          omega⟩
      else none
  else
    some ⟨s.marks ++ [mark], s.cap, by
      have := s.fits
      rw [List.length_append, List.length_singleton]
      omega⟩

/-- Recording the offset `i`, and going on with the flags `next`. -/
def Stage1.mark (realloc : Nat → Bool) (s : Stage1) (i : Nat) (next : Scan) :
    Except Status (Scan × Stage1) :=
  match s.push realloc i with
  | none => .error .nomem
  | some s => .ok (next, s)

/-- The body of the scan on the byte `c` at offset `i`, after the fast path. -/
def scanByte (realloc : Nat → Bool) (st : Scan) (i : Nat) (c : UInt8) (s : Stage1) :
    Except Status (Scan × Stage1) :=
  match st with
  | .escaped => .ok (.inString, s)
  | .inString =>
    if c = chBackslash then .ok (.escaped, s)
    else if c = chQuote then s.mark realloc i .outside
    else if c < 0x20 then .error .json
    else .ok (.inString, s)
  | .outside =>
    if c = chQuote then s.mark realloc i .inString
    else if isStructural c then s.mark realloc i .outside
    else .ok (.outside, s)

/-- The status after the last byte. -/
def Scan.status (st : Scan) : Status := if st = .outside then .ok else .json

/-- The fast path: how far the scan jumps, if it does. -/
def skipBlock (target : Target) (st : Scan) (p : Bytes) : Option Nat :=
  if st = .outside ∧ 16 ≤ p.length then
    let mask := interestingMask16 target (p.take 16)
    if mask = 0 then some 16
    else if ctz32 mask > 0 then some (ctz32 mask)
    else none
  else none

/-- The loop of `dcc_json_stage1_scan` with the marks it records; every round takes at
least one byte. -/
def recordLoop (target : Target) (realloc : Nat → Bool) :
    Nat → Scan → Nat → Bytes → Stage1 → Status × Stage1
  | _, st, _, [], s => (st.status, s)
  | 0, _, _, _ :: _, s => (.json, s)
  | fuel + 1, st, i, c :: p, s =>
    match skipBlock target st (c :: p) with
    | some skip => recordLoop target realloc fuel st (i + skip) ((c :: p).drop skip) s
    | none =>
      match scanByte realloc st i c s with
      | .error status => (status, s)
      | .ok (st, s) => recordLoop target realloc fuel st (i + 1) p s

/-- `dcc_json_stage1_scan` with the marks it records. -/
def stage1Record (target : Target) (realloc : Nat → Bool) (input : Bytes) : Status × Stage1 :=
  recordLoop target realloc input.length .outside 0 input .empty

/-- The scan that looks at every byte. -/
def recordBytes (realloc : Nat → Bool) : Scan → Nat → Bytes → Stage1 → Status × Stage1
  | st, _, [], s => (st.status, s)
  | st, i, c :: p, s =>
    match scanByte realloc st i c s with
    | .error status => (status, s)
    | .ok (st, s) => recordBytes realloc st (i + 1) p s

section Recording

variable {realloc : Nat → Bool} {p : Bytes} {s : Stage1}

theorem skipBlock_spec {target : Target} {st : Scan} {skip : Nat}
    (h : skipBlock target st p = some skip) :
    st = .outside ∧ 0 < skip ∧ skip ≤ p.length ∧ ∀ c ∈ p.take skip, isInteresting c = false := by
  unfold skipBlock at h
  split at h
  · rename_i hblock
    have hdata : (p.take 16).length = 16 := List.length_take_of_le hblock.2
    simp only at h
    split at h
    · rename_i hzero
      obtain rfl := Option.some.inj h
      have hnone := (interestingMask16_eq_zero_iff target hdata).mp hzero
      exact ⟨hblock.1, by decide, hblock.2, List.findIdx?_eq_none_iff.mp hnone⟩
    · rename_i hmask
      split at h
      · rename_i hskip
        obtain rfl := Option.some.inj h
        cases hfirst : (p.take 16).findIdx? isInteresting with
        | none => exact absurd ((interestingMask16_eq_zero_iff target hdata).mpr hfirst) hmask
        | some i =>
          obtain ⟨hlt, -, hbefore⟩ := List.findIdx?_eq_some_iff_getElem.mp hfirst
          rw [ctz32_interesting target hdata hfirst] at hskip ⊢
          refine ⟨hblock.1, hskip, by omega, fun c hc => ?_⟩
          obtain ⟨j, hj, rfl⟩ := List.mem_take_iff_getElem.mp hc
          have hno := hbefore j (by omega)
          rw [List.getElem_take] at hno
          simpa using hno
      · simp at h
  · simp at h

theorem scanByte_skip {c : UInt8} (hc : isInteresting c = false) (i : Nat) :
    scanByte realloc .outside i c s = .ok (.outside, s) := by
  have hquote : c ≠ chQuote := ne_quote_of_not_interesting hc
  have hstructural : isStructural c = false := by
    simp only [isInteresting, Bool.or_eq_false_iff] at hc
    exact hc.1.1
  simp [scanByte, hquote, hstructural]

theorem recordBytes_skip {skipped : Bytes} (h : ∀ c ∈ skipped, isInteresting c = false)
    (p : Bytes) (i : Nat) :
    recordBytes realloc .outside i (skipped ++ p) s =
      recordBytes realloc .outside (i + skipped.length) p s := by
  induction skipped generalizing i with
  | nil => rfl
  | cons c skipped ih =>
    have hc := h c List.mem_cons_self
    have hrest := ih (fun d hd => h d (List.mem_cons_of_mem _ hd)) (i + 1)
    rw [List.cons_append, recordBytes, scanByte_skip hc]
    simp only [hrest, List.length_cons]
    rw [Nat.add_assoc, Nat.add_comm 1]

/-- **Jumping is the same as looking at every byte**, whatever the flags and the offset
the block starts at. -/
theorem recordLoop_eq (target : Target) {fuel : Nat} {st : Scan} {i : Nat} (hfuel : p.length ≤ fuel) :
    recordLoop target realloc fuel st i p s = recordBytes realloc st i p s := by
  induction fuel generalizing st i p s with
  | zero =>
    rw [List.length_eq_zero_iff.mp (Nat.le_zero.mp hfuel)]
    rfl
  | succ fuel ih =>
    cases p with
    | nil => rfl
    | cons c p =>
      rw [List.length_cons] at hfuel
      rw [recordLoop]
      split
      · rename_i skip hskip
        obtain ⟨rfl, hpos, hle, hboring⟩ := skipBlock_spec hskip
        have hlength : ((c :: p).take skip).length = skip := List.length_take_of_le hle
        have hskipped : recordBytes realloc .outside i (c :: p) s =
            recordBytes realloc .outside (i + skip) ((c :: p).drop skip) s := by
          rw [← List.take_append_drop skip (c :: p), recordBytes_skip hboring, hlength,
            List.take_append_drop]
        rw [ih (by rw [List.length_drop, List.length_cons]; omega), hskipped]
      · rw [recordBytes]
        cases scanByte realloc st i c s with
        | error status => rfl
        | ok next => exact ih (by omega)

theorem mark_cases (realloc : Nat → Bool) (s : Stage1) (i : Nat) (next : Scan) :
    (∃ s', s.mark realloc i next = .ok (next, s')) ∨
      (s.push realloc i = none ∧ s.mark realloc i next = .error .nomem) := by
  unfold Stage1.mark
  cases hpush : s.push realloc i with
  | none => exact Or.inr ⟨rfl, rfl⟩
  | some s' => exact Or.inl ⟨s', rfl⟩

theorem scanByte_flags (realloc : Nat → Bool) (s : Stage1) (st : Scan) (i : Nat) (c : UInt8) :
    (st.byte c = none ∧ scanByte realloc st i c s = .error .json) ∨
      (∃ st' s', st.byte c = some st' ∧ scanByte realloc st i c s = .ok (st', s')) ∨
      (s.push realloc i = none ∧ scanByte realloc st i c s = .error .nomem) := by
  cases st with
  | escaped => exact Or.inr (Or.inl ⟨.inString, s, rfl, rfl⟩)
  | inString =>
    unfold scanByte Scan.byte
    by_cases hback : c = chBackslash
    · exact Or.inr (Or.inl ⟨.escaped, s, if_pos hback, if_pos hback⟩)
    · by_cases hquote : c = chQuote
      · simp only [if_neg hback, if_pos hquote]
        rcases mark_cases realloc s i .outside with ⟨s', hmark⟩ | hfull
        · exact Or.inr (Or.inl ⟨.outside, s', rfl, hmark⟩)
        · exact Or.inr (Or.inr hfull)
      · simp only [if_neg hback, if_neg hquote]
        by_cases hcontrol : c < 0x20
        · exact Or.inl ⟨if_pos hcontrol, if_pos hcontrol⟩
        · exact Or.inr (Or.inl ⟨.inString, s, if_neg hcontrol, if_neg hcontrol⟩)
  | outside =>
    unfold scanByte Scan.byte
    by_cases hquote : c = chQuote
    · simp only [if_pos hquote]
      rcases mark_cases realloc s i .inString with ⟨s', hmark⟩ | hfull
      · exact Or.inr (Or.inl ⟨.inString, s', rfl, hmark⟩)
      · exact Or.inr (Or.inr hfull)
    · simp only [if_neg hquote]
      by_cases hstructural : isStructural c = true
      · simp only [if_pos hstructural]
        rcases mark_cases realloc s i .outside with ⟨s', hmark⟩ | hfull
        · exact Or.inr (Or.inl ⟨.outside, s', rfl, hmark⟩)
        · exact Or.inr (Or.inr hfull)
      · exact Or.inr (Or.inl ⟨.outside, s, rfl, if_neg hstructural⟩)

theorem recordBytes_status (realloc : Nat → Bool) (p : Bytes) (s : Stage1) (st : Scan) (i : Nat) :
    (recordBytes realloc st i p s).1 = (if st.run p = some .outside then .ok else .json) ∨
      ((recordBytes realloc st i p s).1 = .nomem ∧
        ∃ s mark, Stage1.push realloc s mark = none) := by
  induction p generalizing st i s with
  | nil =>
    refine Or.inl ?_
    have hrun : st.run [] = some st := rfl
    rw [recordBytes, hrun, Scan.status]
    simp
  | cons c p ih =>
    rw [recordBytes, Scan.run_cons]
    rcases scanByte_flags realloc s st i c with
      ⟨hbyte, hscan⟩ | ⟨st', s', hbyte, hscan⟩ | ⟨hpush, hscan⟩
    · rw [hbyte, hscan]
      exact Or.inl rfl
    · rw [hbyte, hscan]
      exact ih s' st' (i + 1)
    · rw [hscan]
      exact Or.inr ⟨rfl, s, i, hpush⟩

end Recording

theorem stage1Record_status (target : Target) (realloc : Nat → Bool) (input : Bytes) :
    (stage1Record target realloc input).1 = stage1Scan input ∨
      ((stage1Record target realloc input).1 = .nomem ∧
        ∃ s mark, Stage1.push realloc s mark = none) := by
  rw [stage1Record, recordLoop_eq target (Nat.le_refl _), stage1Scan, stage1Loop_eq (Nat.le_refl _)]
  exact recordBytes_status realloc input .empty .outside 0

/-- **The stage-one scan is the scan byte by byte.**  For every input, whichever mask
function was compiled and whatever memory there is, status and marks are the same;
and an input that the parser alone reads to its end is accepted, unless a mark
found no memory. -/
theorem stage1Record_exact (target : Target) (realloc : Nat → Bool) (input : Bytes) :
    stage1Record target realloc input = recordBytes realloc .outside 0 input .empty ∧
      ∀ json rest, parseValue input = some (json, rest) → skipWs rest = [] →
        (stage1Record target realloc input).1 = .ok ∨
          ((stage1Record target realloc input).1 = .nomem ∧
            ∃ s mark, Stage1.push realloc s mark = none) := by
  refine ⟨recordLoop_eq target (Nat.le_refl _), fun json rest hparse hrest => ?_⟩
  rw [← stage1Scan_of_text (text_of_parseValue hparse hrest)]
  exact stage1Record_status target realloc input

end Dcc.Json
