import Mathlib.Algebra.BigOperators.Group.List.Basic
import Dcc.Voice.Ssrc

/-!
# The voice mixer

`dcc_voice_client_mix_pcm` adds a frame of 16-bit samples to 32-bit accumulators, and
`dcc_voice_client_flush_mixed_pcm` hands the listener the accumulators clamped to 16 bits and
clears them.  Between two flushes at most 32 sources may mix, but each as often as it likes.  An
addition that leaves the 32 bits is undefined in C, and has no result here.

* `mix_flush` — the flush emits the clamped sums, as long as the longest frame, exactly when no
  running sum of the frames leaves the 32 bits;
* `fits_of_few` — up to 65536 frames never do.
-/

namespace Dcc.Voice

/-- `DCC_VOICE_MIX_SOURCE_CAP`. -/
def mixSourceCap : Nat := 32

/-- `DCC_VOICE_MIX_SAMPLE_CAP`. -/
def mixSampleCap : Nat := 5760

/-- The values of an `int32_t`. -/
def InInt32 (value : Int) : Prop := -2 ^ 31 ≤ value ∧ value ≤ 2 ^ 31 - 1

instance (value : Int) : Decidable (InInt32 value) := by
  unfold InInt32
  infer_instance

/-- `int32_t` addition; out of range it is undefined. -/
def addInt32 (a b : Int) : Option Int := if InInt32 (a + b) then some (a + b) else none

/-- The mixing fields of a connection: `mix_ssrcs` up to `mix_source_count`, `mix_accumulator`
and `mix_sample_count`. -/
structure Mixer where
  ssrcs : List UInt32
  accumulator : Nat → Int
  sampleCount : Nat

/-- A call of `dcc_voice_client_mix_pcm`, with the SSRC map at that time. -/
structure PcmFrame where
  users : SsrcMap
  ssrc : UInt32
  pcm : List Int16

/-- `dcc_voice_mix_clamp_i16`. -/
def mixClampI16 (sample : Int) : Int16 :=
  if sample > 2 ^ 15 - 1 then Int16.maxValue
  else if sample < -2 ^ 15 then Int16.minValue
  else Int16.ofInt sample

namespace Mixer

/-- A mixer after `dcc_voice_client_clear_mixed_pcm`, whatever the accumulators hold. -/
def cleared (accumulator : Nat → Int) : Mixer where
  ssrcs := []
  accumulator := accumulator
  sampleCount := 0

/-- `memset` of `count` accumulators from `first` on. -/
def zeroFrom (first count : Nat) (accumulator : Nat → Int) (i : Nat) : Int :=
  if first ≤ i ∧ i < first + count then 0 else accumulator i

/-- The loop `mix_accumulator[i] += (int32_t)pcm[i]`, from sample `i` on. -/
def accumulate : Nat → List Int16 → (Nat → Int) → Option (Nat → Int)
  | _, [], accumulator => some accumulator
  | i, sample :: rest, accumulator =>
    if i < mixSampleCap then
      match addInt32 (accumulator i) sample.toInt with
      | none => none
      | some sum => accumulate (i + 1) rest (Function.update accumulator i sum)
    else none

/-- The checks of `dcc_voice_client_mix_pcm`, and the sources with the frame's one. -/
def mixSources (ssrcs : List UInt32) (frame : PcmFrame) : Except Status (List UInt32) :=
  if frame.ssrc = 0 ∨ frame.pcm.length = 0 then .error .invalidArg
  else if frame.pcm.length > mixSampleCap then .error .invalidArg
  else if userForSsrc frame.users frame.ssrc = 0 then .error .state
  else if ssrcs.contains frame.ssrc then .ok ssrcs
  else if ssrcs.length ≥ mixSourceCap then .error .nomem
  else .ok (ssrcs ++ [frame.ssrc])

/-- The accumulators that a frame of `count` samples is added to, and their number. -/
def extend (m : Mixer) (count : Nat) : (Nat → Int) × Nat :=
  if m.sampleCount = 0 then (zeroFrom 0 count m.accumulator, count)
  else if count > m.sampleCount then
    (zeroFrom m.sampleCount (count - m.sampleCount) m.accumulator, count)
  else (m.accumulator, m.sampleCount)

/-- `dcc_voice_client_mix_pcm`; without a result an accumulator has overflowed. -/
def mixPcm (m : Mixer) (frame : PcmFrame) : Option (Mixer × Status) :=
  match mixSources m.ssrcs frame with
  | .error status => some (m, status)
  | .ok ssrcs =>
    let (accumulator, sampleCount) := m.extend frame.pcm.length
    (accumulate 0 frame.pcm accumulator).map fun accumulator =>
      ({ ssrcs, accumulator, sampleCount }, .ok)

/-- `dcc_voice_client_clear_mixed_pcm`. -/
def clearMixedPcm (m : Mixer) : Mixer :=
  cleared (if m.sampleCount > 0 then zeroFrom 0 m.sampleCount m.accumulator else m.accumulator)

/-- `dcc_voice_client_flush_mixed_pcm` with a listener that returns `status`: the samples that
are emitted, if any, and the mixer afterwards. -/
def flushMixedPcm (m : Mixer) (status : Status) : Option (List Int16) × Mixer × Status :=
  if m.sampleCount = 0 then (none, m, .ok)
  else
    (some ((List.range m.sampleCount).map fun i => mixClampI16 (m.accumulator i)),
      if status = .ok then m.clearMixedPcm else m, status)

/-- Some calls of `dcc_voice_client_mix_pcm` one after the other. -/
def mixAll : List PcmFrame → Mixer → Option Mixer
  | [], m => some m
  | frame :: rest, m =>
    match m.mixPcm frame with
    | none => none
    | some (m, _) => mixAll rest m

/-- The samples of the calls that are mixed. -/
def mixed : List UInt32 → List PcmFrame → List (List Int16)
  | _, [] => []
  | ssrcs, frame :: rest =>
    match mixSources ssrcs frame with
    | .error _ => mixed ssrcs rest
    | .ok ssrcs => frame.pcm :: mixed ssrcs rest

end Mixer

/-! ## Sums of frames -/

/-- A sample of a frame, zero past its end. -/
def sampleAt (pcm : List Int16) (i : Nat) : Int := ((pcm[i]?).map Int16.toInt).getD 0

/-- The sum of all frames at a sample index. -/
def total (frames : List (List Int16)) (i : Nat) : Int :=
  (frames.map fun pcm => sampleAt pcm i).sum

/-- The length of the longest frame. -/
def longest : List (List Int16) → Nat
  | [] => 0
  | pcm :: rest => max pcm.length (longest rest)

section Sums

variable {frames : List (List Int16)} {pcm : List Int16} {i : Nat}

theorem total_concat : total (frames ++ [pcm]) i = total frames i + sampleAt pcm i := by
  simp [total]

theorem longest_concat : longest (frames ++ [pcm]) = max (longest frames) pcm.length := by
  induction frames with
  | nil => simp [longest]
  | cons first rest ih => simp [longest, ih, Nat.max_assoc]

theorem sampleAt_of_length_le (h : pcm.length ≤ i) : sampleAt pcm i = 0 := by
  simp [sampleAt, List.getElem?_eq_none h]

theorem total_of_longest_le (h : longest frames ≤ i) : total frames i = 0 := by
  induction frames with
  | nil => rfl
  | cons first rest ih =>
    obtain ⟨hfirst, hrest⟩ := Nat.max_le.mp h
    have htail : total rest i = 0 := ih hrest
    have hcons : total (first :: rest) i = sampleAt first i + total rest i := by
      simp [total]
    rw [hcons, htail, sampleAt_of_length_le hfirst]
    rfl

theorem sampleAt_bounds (pcm : List Int16) (i : Nat) :
    -2 ^ 15 ≤ sampleAt pcm i ∧ sampleAt pcm i ≤ 2 ^ 15 - 1 := by
  unfold sampleAt
  cases pcm[i]? with
  | none => decide
  | some sample => exact ⟨Int16.le_toInt sample, Int.le_sub_one_of_lt (Int16.toInt_lt sample)⟩

theorem total_bounds (frames : List (List Int16)) (i : Nat) :
    -2 ^ 15 * (frames.length : Int) ≤ total frames i ∧
      total frames i ≤ (2 ^ 15 - 1) * (frames.length : Int) := by
  induction frames with
  | nil => simp [total]
  | cons first rest ih =>
    have hfirst := sampleAt_bounds first i
    have hcons : total (first :: rest) i = sampleAt first i + total rest i := by
      simp [total]
    rw [hcons, List.length_cons]
    push_cast
    omega

end Sums

namespace Mixer

section Accumulate

/-- **The loop adds the frame, or overflows at one of its samples.** -/
theorem accumulate_iff (i : Nat) (pcm : List Int16) (accumulator accumulator' : Nat → Int)
    (h : i + pcm.length ≤ mixSampleCap) :
    accumulate i pcm accumulator = some accumulator' ↔
      (∀ k < pcm.length, InInt32 (accumulator (i + k) + sampleAt pcm k)) ∧
      accumulator' = fun j => accumulator j + if i ≤ j then sampleAt pcm (j - i) else 0 := by
  induction pcm generalizing i accumulator with
  | nil =>
    have hzero : (fun j => accumulator j + if i ≤ j then sampleAt [] (j - i) else 0) =
        accumulator := by
      funext j
      simp [sampleAt]
    rw [hzero]
    simp [accumulate, eq_comm]
  | cons sample rest ih =>
    rw [List.length_cons] at h
    have hlt : i < mixSampleCap := by omega
    have hfirst : sampleAt (sample :: rest) 0 = sample.toInt := rfl
    have hlater : ∀ k, sampleAt (sample :: rest) (k + 1) = sampleAt rest k := fun k => by
      simp [sampleAt]
    have hsplit : (∀ k < (sample :: rest).length,
          InInt32 (accumulator (i + k) + sampleAt (sample :: rest) k)) ↔
        InInt32 (accumulator i + sample.toInt) ∧
          ∀ k < rest.length, InInt32 (accumulator (i + 1 + k) + sampleAt rest k) := by
      rw [List.length_cons, Nat.forall_lt_succ_left]
      simp only [Nat.add_zero, hfirst, hlater, Nat.add_right_comm i 1, Nat.add_assoc]
    rw [hsplit, accumulate, if_pos hlt, addInt32]
    by_cases hin : InInt32 (accumulator i + sample.toInt)
    · rw [if_pos hin]
      simp only [hin, true_and]
      rw [ih (i + 1) _ (by omega)]
      have hsame : ∀ k, Function.update accumulator i (accumulator i + sample.toInt) (i + 1 + k) =
          accumulator (i + 1 + k) := fun k => Function.update_of_ne (by omega) _ _
      have hsum : (fun j => Function.update accumulator i (accumulator i + sample.toInt) j +
            if i + 1 ≤ j then sampleAt rest (j - (i + 1)) else 0) =
          fun j => accumulator j + if i ≤ j then sampleAt (sample :: rest) (j - i) else 0 := by
        funext j
        by_cases hj : j = i
        · subst hj
          rw [Function.update_self, if_neg (by omega), if_pos (Nat.le_refl _), Nat.sub_self,
            hfirst, Int.add_zero]
        · by_cases hlt' : i ≤ j
          · have hnext : j - i = j - (i + 1) + 1 := by omega
            rw [Function.update_of_ne hj, if_pos hlt', if_pos (by omega), hnext, hlater]
          · rw [Function.update_of_ne hj, if_neg hlt', if_neg (by omega)]
      simp only [hsame, hsum]
    · simp [hin]

end Accumulate

/-- The accumulators hold the sums of `done`, up to the end of its longest frame. -/
structure Holds (m : Mixer) (done : List (List Int16)) : Prop where
  sums : ∀ i < m.sampleCount, m.accumulator i = total done i
  count : m.sampleCount = longest done

section Mixing

variable {m : Mixer} {done : List (List Int16)} {frame : PcmFrame} {ssrcs : List UInt32}

theorem Holds.extend (h : m.Holds done) (count : Nat) :
    (m.extend count).2 = max m.sampleCount count ∧
      ∀ i < max m.sampleCount count, (m.extend count).1 i = total done i := by
  have hpast : ∀ i, m.sampleCount ≤ i → total done i = 0 := fun i hi =>
    total_of_longest_le (h.count ▸ hi)
  unfold Mixer.extend
  split
  · next hzero =>
    refine ⟨by simp [hzero], fun i hi => ?_⟩
    have hlt : i < count := by omega
    simp only [zeroFrom]
    rw [if_pos (by omega), hpast i (by omega)]
  · split
    · next hlonger =>
      refine ⟨by simp only; omega, fun i hi => ?_⟩
      by_cases hold : i < m.sampleCount
      · simp only [zeroFrom]
        rw [if_neg (by omega), h.sums i hold]
      · simp only [zeroFrom]
        rw [if_pos (by omega), hpast i (by omega)]
    · next hshorter =>
      refine ⟨by simp only; omega, fun i hi => h.sums i (by omega)⟩

theorem length_of_mixSources {sources : List UInt32} (h : mixSources sources frame = .ok ssrcs) :
    0 < frame.pcm.length ∧ frame.pcm.length ≤ mixSampleCap := by
  unfold mixSources at h
  split at h
  · cases h
  · next hargs =>
    split at h
    · cases h
    · next hcap => exact ⟨by omega, by omega⟩

theorem Holds.mixPcm_some (h : m.Holds done) (hsources : mixSources m.ssrcs frame = .ok ssrcs)
    (hfits : ∀ i, InInt32 (total (done ++ [frame.pcm]) i)) :
    ∃ m', m.mixPcm frame = some (m', .ok) ∧ m'.ssrcs = ssrcs ∧ m'.Holds (done ++ [frame.pcm]) := by
  obtain ⟨-, hcap⟩ := length_of_mixSources hsources
  obtain ⟨hcount, hsums⟩ := h.extend frame.pcm.length
  have hadd := (accumulate_iff 0 frame.pcm (m.extend frame.pcm.length).1 _ (by omega)).mpr
    ⟨fun k hk => ?_, rfl⟩
  · refine ⟨⟨ssrcs, fun j => (m.extend frame.pcm.length).1 j +
      if 0 ≤ j then sampleAt frame.pcm (j - 0) else 0, (m.extend frame.pcm.length).2⟩, ?_, rfl,
      ?_, ?_⟩
    · rw [mixPcm, hsources]
      simp only [hadd, Option.map_some]
    · intro i hi
      simp only at hi ⊢
      rw [total_concat, if_pos (Nat.zero_le i), Nat.sub_zero, hsums i (by omega)]
    · simp only [hcount, h.count, longest_concat]
  · rw [Nat.zero_add, hsums k (by omega), ← total_concat]
    exact hfits k

theorem Holds.mixPcm_none (h : m.Holds done) (hsources : mixSources m.ssrcs frame = .ok ssrcs)
    (hdone : ∀ i, InInt32 (total done i)) {i : Nat}
    (hout : ¬ InInt32 (total (done ++ [frame.pcm]) i)) : m.mixPcm frame = none := by
  obtain ⟨-, hcap⟩ := length_of_mixSources hsources
  obtain ⟨hcount, hsums⟩ := h.extend frame.pcm.length
  have hi : i < frame.pcm.length := by
    by_contra hpast
    refine hout ?_
    rw [total_concat, sampleAt_of_length_le (Nat.not_lt.mp hpast), Int.add_zero]
    exact hdone i
  have hnone : accumulate 0 frame.pcm (m.extend frame.pcm.length).1 = none := by
    refine Option.eq_none_iff_forall_ne_some.mpr fun accumulator' hsome => hout ?_
    have hin := ((accumulate_iff 0 frame.pcm _ accumulator' (by omega)).mp hsome).1 i hi
    rwa [Nat.zero_add, hsums i (by omega), ← total_concat] at hin
  rw [mixPcm, hsources]
  simp only [hnone, Option.map_none]

theorem mixPcm_refused {status : Status} (hsources : mixSources m.ssrcs frame = .error status) :
    m.mixPcm frame = some (m, status) := by
  rw [mixPcm, hsources]

end Mixing

/-- Every running sum of the frames fits the accumulators. -/
def Fits (done frames : List (List Int16)) : Prop :=
  ∀ first, first <+: frames → ∀ i, InInt32 (total (done ++ first) i)

section Calls

variable {m : Mixer} {done : List (List Int16)}

theorem fits_cons {pcm : List Int16} {rest : List (List Int16)} :
    Fits done (pcm :: rest) ↔ (∀ i, InInt32 (total done i)) ∧ Fits (done ++ [pcm]) rest := by
  constructor
  · intro h
    refine ⟨by simpa using h [] List.nil_prefix, fun first hfirst => ?_⟩
    have := h (pcm :: first) (List.cons_prefix_cons.mpr ⟨rfl, hfirst⟩)
    simpa using this
  · intro h first hfirst
    cases first with
    | nil => simpa using h.1
    | cons head tail =>
      obtain ⟨rfl, htail⟩ := List.cons_prefix_cons.mp hfirst
      simpa using h.2 tail htail

/-- **Calls add up their frames** as long as every running sum fits. -/
theorem Holds.mixAll_some (frames : List PcmFrame) (h : m.Holds done)
    (hfits : Fits done (mixed m.ssrcs frames)) :
    ∃ m', mixAll frames m = some m' ∧ m'.Holds (done ++ mixed m.ssrcs frames) := by
  induction frames generalizing m done with
  | nil => exact ⟨m, rfl, by simpa [mixed] using h⟩
  | cons frame rest ih =>
    cases hsources : mixSources m.ssrcs frame with
    | error status =>
      have hmixed : mixed m.ssrcs (frame :: rest) = mixed m.ssrcs rest := by
        rw [mixed, hsources]
      rw [hmixed] at hfits ⊢
      rw [mixAll, mixPcm_refused hsources]
      exact ih h hfits
    | ok ssrcs =>
      have hmixed : mixed m.ssrcs (frame :: rest) = frame.pcm :: mixed ssrcs rest := by
        rw [mixed, hsources]
      rw [hmixed] at hfits ⊢
      obtain ⟨-, hrest⟩ := fits_cons.mp hfits
      obtain ⟨m', hmix, rfl, hholds⟩ := h.mixPcm_some hsources
        (by simpa using hrest [] List.nil_prefix)
      rw [mixAll, hmix]
      obtain ⟨m'', hall, hlast⟩ := ih hholds hrest
      exact ⟨m'', hall, by simpa using hlast⟩

theorem Holds.mixAll_none (frames : List PcmFrame) (h : m.Holds done)
    (hdone : ∀ i, InInt32 (total done i)) (hfits : ¬ Fits done (mixed m.ssrcs frames)) :
    mixAll frames m = none := by
  induction frames generalizing m done with
  | nil =>
    refine absurd (fun first hfirst i => ?_) hfits
    obtain rfl := List.prefix_nil.mp hfirst
    simpa using hdone i
  | cons frame rest ih =>
    cases hsources : mixSources m.ssrcs frame with
    | error status =>
      have hmixed : mixed m.ssrcs (frame :: rest) = mixed m.ssrcs rest := by
        rw [mixed, hsources]
      rw [hmixed] at hfits
      rw [mixAll, mixPcm_refused hsources]
      exact ih h hdone hfits
    | ok ssrcs =>
      have hmixed : mixed m.ssrcs (frame :: rest) = frame.pcm :: mixed ssrcs rest := by
        rw [mixed, hsources]
      rw [hmixed] at hfits
      by_cases hnext : ∀ i, InInt32 (total (done ++ [frame.pcm]) i)
      · obtain ⟨m', hmix, rfl, hholds⟩ := h.mixPcm_some hsources hnext
        rw [mixAll, hmix]
        exact ih hholds hnext fun hrest => hfits (fits_cons.mpr ⟨hdone, hrest⟩)
      · obtain ⟨i, hout⟩ := not_forall.mp hnext
        rw [mixAll, h.mixPcm_none hsources hdone hout]

end Calls

/-- Some calls after a clear, and a flush: the calls return without an overflow, and the flush
emits, for each sample index of the longest frame that was mixed, the sum clamped to 16 bits. -/
def MixesExactly (accumulator : Nat → Int) (frames : List PcmFrame) (status : Status) : Prop :=
  ∃ m, mixAll frames (cleared accumulator) = some m ∧
    if mixed [] frames = [] then (m.flushMixedPcm status).1 = none
    else ∃ emitted, (m.flushMixedPcm status).1 = some emitted ∧
      emitted.length = longest (mixed [] frames) ∧
      ∀ i (h : i < emitted.length), (emitted[i]).toInt =
        max (-2 ^ 15) (min (2 ^ 15 - 1) (total (mixed [] frames) i))

theorem cleared_holds (accumulator : Nat → Int) : (cleared accumulator).Holds [] :=
  ⟨fun i hi => absurd hi (Nat.not_lt_zero i), rfl⟩

end Mixer

theorem toInt_mixClampI16 (sample : Int) :
    (mixClampI16 sample).toInt = max (-2 ^ 15) (min (2 ^ 15 - 1) sample) := by
  unfold mixClampI16
  split
  · have hmax : Int16.maxValue.toInt = 2 ^ 15 - 1 := by decide
    omega
  · split
    · have hmin : Int16.minValue.toInt = -2 ^ 15 := by decide
      omega
    · rw [Int16.toInt_ofInt_of_le (by omega) (by omega)]
      omega

namespace Mixer

theorem Holds.flush {m : Mixer} {done : List (List Int16)} (h : m.Holds done) (status : Status)
    (hsome : m.sampleCount ≠ 0) :
    ∃ emitted, (m.flushMixedPcm status).1 = some emitted ∧ emitted.length = longest done ∧
      ∀ i (hi : i < emitted.length),
        (emitted[i]).toInt = max (-2 ^ 15) (min (2 ^ 15 - 1) (total done i)) := by
  refine ⟨(List.range m.sampleCount).map fun i => mixClampI16 (m.accumulator i), ?_, ?_, ?_⟩
  · rw [flushMixedPcm, if_neg hsome]
  · rw [List.length_map, List.length_range, h.count]
  · intro i hi
    have hlt : i < m.sampleCount := by simpa using hi
    rw [List.getElem_map, List.getElem_range, toInt_mixClampI16, h.sums i hlt]

theorem longest_mixed_pos (ssrcs : List UInt32) (frames : List PcmFrame)
    (h : mixed ssrcs frames ≠ []) : 0 < longest (mixed ssrcs frames) := by
  induction frames generalizing ssrcs with
  | nil => exact absurd rfl h
  | cons frame rest ih =>
    cases hsources : mixSources ssrcs frame with
    | error status =>
      have hmixed : mixed ssrcs (frame :: rest) = mixed ssrcs rest := by
        rw [mixed, hsources]
      rw [hmixed] at h ⊢
      exact ih ssrcs h
    | ok ssrcs' =>
      have hmixed : mixed ssrcs (frame :: rest) = frame.pcm :: mixed ssrcs' rest := by
        rw [mixed, hsources]
      rw [hmixed, longest]
      have hpos := (length_of_mixSources hsources).1
      omega

/-- **The mixer emits the clamped sums exactly when they fit.**  For all calls between a clear
and a flush, the flush emits the sum of the mixed frames at every sample of the longest one,
clamped to 16 bits, and no accumulator overflows before, if and only if the sum of the first
frames, however many, stays within 32 bits at every sample. -/
theorem mix_flush (accumulator : Nat → Int) (frames : List PcmFrame) (status : Status) :
    MixesExactly accumulator frames status ↔ Fits [] (mixed [] frames) := by
  have hcleared := cleared_holds accumulator
  have hnothing : ∀ i, InInt32 (total [] i) := fun i => by simp [total, InInt32]
  constructor
  · intro h
    obtain ⟨m, hsome, -⟩ := h
    by_contra hfits
    rw [hcleared.mixAll_none frames hnothing hfits] at hsome
    cases hsome
  · intro hfits
    obtain ⟨m, hall, hholds⟩ := hcleared.mixAll_some frames hfits
    have hmixed : m.Holds (mixed [] frames) := hholds
    refine ⟨m, hall, ?_⟩
    split
    · next hnone =>
      have hcount : m.sampleCount = 0 := by rw [hmixed.count, hnone, longest]
      rw [flushMixedPcm, if_pos hcount]
    · next hsome =>
      have hpos := longest_mixed_pos [] frames hsome
      exact hmixed.flush status (by rw [hmixed.count]; omega)

/-- Up to 65536 frames fit, whatever their samples. -/
theorem fits_of_few {frames : List (List Int16)} (h : frames.length ≤ 65536) :
    Fits [] frames := by
  intro first hfirst i
  obtain ⟨hlow, hhigh⟩ := total_bounds ([] ++ first) i
  have hlength : first.length ≤ 65536 := Nat.le_trans hfirst.length_le h
  rw [List.nil_append] at hlow hhigh ⊢
  unfold InInt32
  omega

/-- One sample of a speaker, the lowest there is. -/
def lowestSample : PcmFrame where
  users := ⟨[⟨1, 7⟩], by decide, by decide⟩
  ssrc := 1
  pcm := [Int16.minValue]

theorem mixed_lowest (n : Nat) :
    mixed [1] (List.replicate n lowestSample) = List.replicate n [Int16.minValue] := by
  induction n with
  | zero => rfl
  | succ n ih =>
    have hsources : mixSources [1] lowestSample = .ok [1] := by decide
    rw [List.replicate_succ, mixed, hsources, List.replicate_succ]
    exact congrArg _ ih

/-- A speaker's 65537th frame of lowest samples leaves the 32 bits. -/
theorem lowest_overflows :
    ¬ ∀ accumulator frames status, MixesExactly accumulator frames status := by
  intro h
  obtain ⟨m, hsome, -⟩ := h (fun _ => 0) (List.replicate 65537 lowestSample) .ok
  have hmixed : mixed [] (List.replicate 65537 lowestSample) =
      List.replicate 65537 [Int16.minValue] := by
    have hsources : mixSources [] lowestSample = .ok [1] := by decide
    rw [show (65537 : Nat) = 65536 + 1 from rfl, List.replicate_succ, mixed, hsources,
      List.replicate_succ]
    exact congrArg _ (mixed_lowest 65536)
  have hfits : ¬ Fits [] (mixed [] (List.replicate 65537 lowestSample)) := by
    intro hfits
    have hsum := hfits _ List.prefix_rfl 0
    have htotal : total (List.replicate 65537 [Int16.minValue]) 0 = 65537 * (-32768) := by
      have hsample : sampleAt [Int16.minValue] 0 = -32768 := by decide
      rw [total, List.map_replicate, hsample, List.sum_replicate]
      rfl
    rw [List.nil_append, hmixed, htotal] at hsum
    exact absurd hsum (by decide)
  rw [(cleared_holds _).mixAll_none _ (fun i => by simp [total, InInt32]) hfits] at hsome
  cases hsome

end Mixer

end Dcc.Voice
