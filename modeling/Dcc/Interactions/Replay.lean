import Dcc.Interactions.Server

/-!
# Signed requests are handled at most once

The table of seen requests is keyed by the text of the two headers and timed from the
arrival, while what is signed is the bytes of the signature, and what is fresh is decided
from the signed time.

* `handled_at_most_once` — no signed request is handled twice in a run in which a fresh
  request comes again only with the same header text, with a timestamp of at most 32
  characters, and within the window after its first arrival;
* `handled_twice` — none of the three may be left out.
-/

namespace Dcc.Interactions

/-! ## What is signed -/

section Signed

variable {δ : Type} {crypto : Crypto δ} {config : Config} {arrival : Arrival}
  {signature timestamp : Bytes}

/-- A request passes the checks before the table: it is signed, and its timestamp is fresh. -/
def Arrival.passes (crypto : Crypto δ) (config : Config) (arrival : Arrival)
    (signature timestamp : Bytes) : Prop :=
  arrival.request.header "X-Signature-Ed25519" = some signature ∧
    arrival.request.header "X-Signature-Timestamp" = some timestamp ∧
    verifySignature crypto config.publicKeyHex timestamp arrival.request.body signature = true ∧
    timestampFresh config.replayWindowMs arrival.wallTime timestamp = true

/-- A request passes the checks with some headers. -/
def Arrival.admissible (crypto : Crypto δ) (config : Config) (arrival : Arrival) : Prop :=
  ∃ signature timestamp, arrival.passes crypto config signature timestamp

/-- The digest that the table is searched for. -/
def Arrival.tableDigest (crypto : Crypto δ) (arrival : Arrival) : Option δ := do
  let signature ← arrival.request.header "X-Signature-Ed25519"
  let timestamp ← arrival.request.header "X-Signature-Timestamp"
  replayDigest crypto timestamp signature

section

variable (h : arrival.passes crypto config signature timestamp)
include h

theorem Arrival.passes.tableDigest_eq :
    arrival.tableDigest crypto = replayDigest crypto timestamp signature := by
  simp [Arrival.tableDigest, h.1, h.2.1]

theorem Arrival.passes.decoded :
    ∃ bytes, hexDecodeExact signature 64 = some bytes := by
  obtain ⟨-, -, hverified, -⟩ := h
  rw [verifySignature] at hverified
  split at hverified
  · rename_i publicKey bytes hkey hbytes
    exact ⟨bytes, hbytes⟩
  · cases hverified

theorem Arrival.passes.signature_length :
    signature.length = 128 := by
  obtain ⟨bytes, hbytes⟩ := h.decoded
  rw [hexDecodeExact] at hbytes
  split at hbytes
  · cases hbytes
  · rename_i hlength
    simpa using hlength

theorem Arrival.passes.signed_eq :
    ∃ bytes, arrival.request.signed = some (bytes, timestamp, arrival.request.body) := by
  obtain ⟨bytes, hbytes⟩ := h.decoded
  exact ⟨bytes, by simp [Request.signed, h.1, h.2.1, hbytes]⟩

end

theorem window_of_fresh {replayWindowMs : Nat} {currentTime : Int}
    (h : timestampFresh replayWindowMs currentTime timestamp = true) : replayWindowMs ≠ 0 := by
  intro hzero
  rw [timestampFresh, if_pos hzero] at h
  cases h

end Signed

variable {δ : Type} [DecidableEq δ] {crypto : Crypto δ} {config : Config} {arrival : Arrival}
  {nowNs windowNs : Nat} {digest : δ} {entry : ReplayEntry δ}
  {entries : List (Option (ReplayEntry δ))}

/-! ## The table -/

theorem replayScan_held (digest : δ) (index : Nat) (free : Option Nat)
    (hentry : entry ∈ entries.reduceOption)
    (hyoung : entry.expired nowNs windowNs = false) :
    entry ∈ (replayScan nowNs windowNs digest entries index free).1.reduceOption := by
  fun_induction replayScan nowNs windowNs digest entries index free with
  | case1 => simp at hentry
  | case2 entries index free entries' seen free' heq ih =>
    rw [List.reduceOption_cons_of_none] at hentry ⊢
    rw [heq] at ih
    exact ih hentry
  | case3 other entries index free hexpired entries' seen free' heq ih =>
    rw [List.reduceOption_cons_of_some, List.mem_cons] at hentry
    rw [List.reduceOption_cons_of_none]
    rcases hentry with rfl | hentry
    · rw [hyoung] at hexpired
      cases hexpired
    · rw [heq] at ih
      exact ih hentry
  | case4 other entries index free hother hsame => exact hentry
  | case5 other entries index free hother hdiffers entries' seen free' heq ih =>
    rw [List.reduceOption_cons_of_some, List.mem_cons] at hentry ⊢
    rcases hentry with rfl | hentry
    · exact Or.inl rfl
    · rw [heq] at ih
      exact Or.inr (ih hentry)

theorem replayScan_seen (index : Nat) (free : Option Nat) (hentry : entry ∈ entries.reduceOption)
    (hyoung : entry.expired nowNs windowNs = false) (hdigest : entry.digest = digest) :
    (replayScan nowNs windowNs digest entries index free).2.1 = true := by
  fun_induction replayScan nowNs windowNs digest entries index free with
  | case1 => simp at hentry
  | case2 entries index free entries' seen free' heq ih =>
    rw [List.reduceOption_cons_of_none] at hentry
    rw [heq] at ih
    exact ih hentry
  | case3 other entries index free hexpired entries' seen free' heq ih =>
    rw [List.reduceOption_cons_of_some, List.mem_cons] at hentry
    rcases hentry with rfl | hentry
    · rw [hyoung] at hexpired
      cases hexpired
    · rw [heq] at ih
      exact ih hentry
  | case4 other entries index free hother hsame => rfl
  | case5 other entries index free hother hdiffers entries' seen free' heq ih =>
    rw [List.reduceOption_cons_of_some, List.mem_cons] at hentry
    rcases hentry with rfl | hentry
    · exact absurd hdigest hdiffers
    · rw [heq] at ih
      exact ih hentry

theorem replayScan_free (nowNs windowNs : Nat) (digest : δ)
    (entries : List (Option (ReplayEntry δ))) (index : Nat) (free : Option Nat) :
    (replayScan nowNs windowNs digest entries index free).2.2 = free ∨
      ∃ i, (replayScan nowNs windowNs digest entries index free).2.2 = some (index + i) ∧
        (replayScan nowNs windowNs digest entries index free).1[i]? = some none := by
  have hshift : ∀ {entries' : List (Option (ReplayEntry δ))} {first : Option (ReplayEntry δ)}
      {index : Nat} {found : Option Nat},
      (∃ i, found = some (index + 1 + i) ∧ entries'[i]? = some none) →
      ∃ i, found = some (index + i) ∧ (first :: entries')[i]? = some none := by
    intro entries' first index found ⟨i, hfound, hi⟩
    exact ⟨i + 1, by rw [hfound]; congr 1; omega, by simpa using hi⟩
  -- a free slot at the head is the one found, unless one was found before
  have hhead : ∀ {entries' : List (Option (ReplayEntry δ))} {index : Nat}
      {free found : Option Nat},
      (found = free.or (some index) ∨
        ∃ i, found = some (index + 1 + i) ∧ entries'[i]? = some none) →
      found = free ∨ ∃ i, found = some (index + i) ∧ (none :: entries')[i]? = some none := by
    intro entries' index free found h
    rcases h with h | h
    · cases free with
      | none => exact Or.inr ⟨0, by simpa using h, rfl⟩
      | some old => exact Or.inl (by simpa using h)
    · exact Or.inr (hshift h)
  fun_induction replayScan nowNs windowNs digest entries index free with
  | case1 => exact Or.inl rfl
  | case2 entries index free entries' seen free' heq ih =>
    rw [heq] at ih
    exact hhead ih
  | case3 other entries index free hexpired entries' seen free' heq ih =>
    rw [heq] at ih
    exact hhead ih
  | case4 => exact Or.inl rfl
  | case5 other entries index free hother hdiffers entries' seen free' heq ih =>
    rw [heq] at ih
    exact ih.imp id hshift

theorem replaySeen_held {replayWindowMs : Nat} {timestamp signature : Bytes}
    (hentry : entry ∈ entries.reduceOption)
    (hyoung : entry.expired nowNs (replayWindowMs * 1000000) = false) :
    entry ∈ (replaySeen crypto replayWindowMs nowNs timestamp signature entries).2.reduceOption := by
  rw [replaySeen]
  split
  · exact hentry
  cases hdigest : replayDigest crypto timestamp signature with
  | none => exact hentry
  | some digest =>
    have hheld := replayScan_held digest 0 none hentry hyoung
    have hfree := replayScan_free nowNs (replayWindowMs * 1000000) digest entries 0 none
    simp only
    generalize replayScan nowNs (replayWindowMs * 1000000) digest entries 0 none = scan at *
    obtain ⟨entries', seen, free⟩ := scan
    cases seen with
    | true => exact hheld
    | false =>
      cases free with
      | none => exact hheld
      | some free =>
        rcases hfree with hfree | ⟨i, hi, hslot⟩
        · cases hfree
        obtain rfl : free = i := by simpa using hi
        exact (Slots.reduceOption_set hslot).mem_iff.mpr (List.mem_cons_of_mem _ hheld)

theorem replaySeen_seen {replayWindowMs : Nat} {timestamp signature : Bytes}
    (hwindow : replayWindowMs ≠ 0)
    (hdigest : replayDigest crypto timestamp signature = some entry.digest)
    (hentry : entry ∈ entries.reduceOption)
    (hyoung : entry.expired nowNs (replayWindowMs * 1000000) = false) :
    (replaySeen crypto replayWindowMs nowNs timestamp signature entries).1 = .seen := by
  have hseen := replayScan_seen 0 none hentry hyoung rfl
  simp only [replaySeen, if_neg hwindow, hdigest]
  generalize replayScan nowNs (replayWindowMs * 1000000) entry.digest entries 0 none = scan at *
  obtain ⟨entries', seen, free⟩ := scan
  obtain rfl : seen = true := hseen
  rfl

theorem replaySeen_new {replayWindowMs : Nat} {timestamp signature : Bytes}
    (hwindow : replayWindowMs ≠ 0)
    (hdigest : replayDigest crypto timestamp signature = some digest)
    (hnew : (replaySeen crypto replayWindowMs nowNs timestamp signature entries).1 = .new) :
    ⟨digest, nowNs⟩ ∈
      (replaySeen crypto replayWindowMs nowNs timestamp signature entries).2.reduceOption := by
  have hfree := replayScan_free nowNs (replayWindowMs * 1000000) digest entries 0 none
  simp only [replaySeen, if_neg hwindow, hdigest] at hnew ⊢
  generalize replayScan nowNs (replayWindowMs * 1000000) digest entries 0 none = scan at *
  obtain ⟨entries', seen, free⟩ := scan
  cases seen with
  | true => cases hnew
  | false =>
    cases free with
    | none => cases hnew
    | some free =>
      rcases hfree with hfree | ⟨i, hi, hslot⟩
      · cases hfree
      obtain rfl : free = i := by simpa using hi
      exact (Slots.reduceOption_set hslot).mem_iff.mpr List.mem_cons_self

/-! ## One request -/

theorem handleRequest_cases (crypto : Crypto δ) (config : Config) (arrival : Arrival)
    (entries : List (Option (ReplayEntry δ))) :
    ((handleRequest crypto config arrival entries).2 = entries ∧
      (handleRequest crypto config arrival entries).1.handled = false) ∨
    ∃ signature timestamp, arrival.passes crypto config signature timestamp ∧
      (handleRequest crypto config arrival entries).2 =
        (replaySeen crypto config.replayWindowMs arrival.nowNs timestamp signature entries).2 ∧
      ((replaySeen crypto config.replayWindowMs arrival.nowNs timestamp signature entries).1 = .new ∨
        (handleRequest crypto config arrival entries).1.handled = false) := by
  simp only [handleRequest]
  split
  · exact Or.inl ⟨rfl, rfl⟩
  split
  · exact Or.inl ⟨rfl, rfl⟩
  split
  · rename_i signature timestamp hsignature htimestamp
    split
    · exact Or.inl ⟨rfl, rfl⟩
    rename_i hverified
    split
    · exact Or.inl ⟨rfl, rfl⟩
    rename_i hfresh
    split
    · exact Or.inl ⟨rfl, rfl⟩
    refine Or.inr ⟨signature, timestamp,
      ⟨hsignature, htimestamp, by simpa using hverified, by simpa using hfresh⟩, ?_⟩
    cases hseen : replaySeen crypto config.replayWindowMs arrival.nowNs timestamp signature
      entries with
    | mk status entries' =>
      cases status with
      | new => exact ⟨rfl, Or.inl rfl⟩
      | _ => exact ⟨rfl, Or.inr rfl⟩
  · exact Or.inl ⟨rfl, rfl⟩

theorem new_of_handled (h : (handleRequest crypto config arrival entries).1.handled = true) :
    ∃ signature timestamp, arrival.passes crypto config signature timestamp ∧
      (handleRequest crypto config arrival entries).2 =
        (replaySeen crypto config.replayWindowMs arrival.nowNs timestamp signature entries).2 ∧
      (replaySeen crypto config.replayWindowMs arrival.nowNs timestamp signature entries).1 =
        .new := by
  rcases handleRequest_cases crypto config arrival entries with ⟨-, hnot⟩ | hpassed
  · rw [hnot] at h
    cases h
  · obtain ⟨signature, timestamp, hpasses, htable, hnew | hnot⟩ := hpassed
    · exact ⟨signature, timestamp, hpasses, htable, hnew⟩
    · rw [hnot] at h
      cases h

theorem handleRequest_held (hentry : entry ∈ entries.reduceOption)
    (hyoung : entry.expired arrival.nowNs (config.replayWindowMs * 1000000) = false) :
    entry ∈ (handleRequest crypto config arrival entries).2.reduceOption := by
  rcases handleRequest_cases crypto config arrival entries with ⟨htable, -⟩ | hpassed
  · rw [htable]
    exact hentry
  · obtain ⟨signature, timestamp, -, htable, -⟩ := hpassed
    rw [htable]
    exact replaySeen_held hentry hyoung

/-! ## Sequences of requests -/

omit [DecidableEq δ] in
theorem expired_of_le (h : nowNs - entry.seenAtNs ≤ windowNs) :
    entry.expired nowNs windowNs = false := by
  simp only [ReplayEntry.expired, decide_eq_false_iff_not]
  omega

variable {arrivals : List Arrival}

theorem refused_while_held (hentry : entry ∈ entries.reduceOption)
    (hmono : arrivals.Pairwise fun a b => a.nowNs ≤ b.nowNs) :
    ∀ p ∈ arrivals.zip (outcomes crypto config arrivals entries),
      p.1.nowNs - entry.seenAtNs ≤ config.replayWindowMs * 1000000 →
      p.1.tableDigest crypto = some entry.digest → p.2.handled = false := by
  induction arrivals generalizing entries with
  | nil => simp
  | cons arrival arrivals ih =>
    intro p hp hage hdigest
    obtain ⟨hfirst, hrest⟩ := List.pairwise_cons.mp hmono
    rcases List.mem_cons.mp hp with rfl | hp
    · by_contra hhandled
      obtain ⟨signature, timestamp, hpasses, -, hnew⟩ :=
        new_of_handled ((Bool.not_eq_false _).mp hhandled)
      have hseen := replaySeen_seen (window_of_fresh hpasses.2.2.2)
        (hpasses.tableDigest_eq.symm.trans hdigest) hentry
        (expired_of_le hage)
      rw [hseen] at hnew
      cases hnew
    · have hle : arrival.nowNs ≤ p.1.nowNs := hfirst _ (List.of_mem_zip hp).1
      have hheld : entry ∈ (handleRequest crypto config arrival entries).2.reduceOption :=
        handleRequest_held hentry (expired_of_le (by omega))
      exact ih hheld hrest p hp hage hdigest

/-- A request that comes again: with the same spelling of the signature, a timestamp that has
a digest, and within the window. -/
def Config.covers (config : Config) (first again : Arrival) : Prop :=
  first.request.header "X-Signature-Ed25519" = again.request.header "X-Signature-Ed25519" ∧
    (∀ timestamp, again.request.header "X-Signature-Timestamp" = some timestamp →
      timestamp.length ≤ 32) ∧
    again.nowNs - first.nowNs ≤ config.replayWindowMs * 1000000

theorem admissible_of_handled :
    ∀ p ∈ arrivals.zip (outcomes crypto config arrivals entries),
      p.2.handled = true → p.1.admissible crypto config := by
  induction arrivals generalizing entries with
  | nil => simp
  | cons arrival arrivals ih =>
    intro p hp hhandled
    rcases List.mem_cons.mp hp with rfl | hp
    · obtain ⟨signature, timestamp, hpasses, -⟩ := new_of_handled hhandled
      exact ⟨signature, timestamp, hpasses⟩
    · exact ih p hp hhandled

/-- **Signed requests are handled at most once**, in every run in which an admissible request
that comes again is one that the table covers. -/
theorem handled_at_most_once (crypto : Crypto δ) (config : Config) (arrivals : List Arrival)
    (hmono : arrivals.Pairwise fun a b => a.nowNs ≤ b.nowNs)
    (hcovered : arrivals.Pairwise fun first again =>
      first.request.signed = again.request.signed → first.admissible crypto config →
        again.admissible crypto config → config.covers first again)
    (entries : List (Option (ReplayEntry δ))) :
    (arrivals.zip (outcomes crypto config arrivals entries)).Pairwise fun first again =>
      first.2.handled = true → again.2.handled = true →
        first.1.request.signed ≠ again.1.request.signed := by
  induction arrivals generalizing entries with
  | nil => simp
  | cons arrival arrivals ih =>
    obtain ⟨hfirst, hrest⟩ := List.pairwise_cons.mp hmono
    obtain ⟨hcover, hcovers⟩ := List.pairwise_cons.mp hcovered
    refine List.pairwise_cons.mpr ⟨?_, ih hrest hcovers _⟩
    intro p hp hhandled hagain hsame
    obtain ⟨signature, timestamp, hpasses, htable, hnew⟩ := new_of_handled hhandled
    obtain ⟨signature', timestamp', hpasses'⟩ := admissible_of_handled p hp hagain
    obtain ⟨hspelling, hshort, hage⟩ := hcover p.1 (List.of_mem_zip hp).1 hsame
      ⟨signature, timestamp, hpasses⟩ ⟨signature', timestamp', hpasses'⟩
    obtain rfl : signature = signature' := by
      simpa [hpasses.1, hpasses'.1] using hspelling
    obtain rfl : timestamp = timestamp' := by
      obtain ⟨bytes, hsigned⟩ := hpasses.signed_eq
      obtain ⟨bytes', hsigned'⟩ := hpasses'.signed_eq
      have hparts : some (bytes, timestamp, arrival.request.body) =
          some (bytes', timestamp', p.1.request.body) := by
        rw [← hsigned, ← hsigned']
        exact hsame
      simp only [Option.some.injEq, Prod.mk.injEq] at hparts
      exact hparts.2.1
    -- the two have one digest, and the entry of the first is there when the second comes
    have hdigest : replayDigest crypto timestamp signature =
        some (crypto.sha256 (timestamp ++ 0 :: signature)) := by
      have hlength := hpasses.signature_length
      have hshort := hshort timestamp hpasses'.2.1
      rw [replayDigest, if_neg (by omega)]
    have hentry := replaySeen_new (window_of_fresh hpasses.2.2.2) hdigest hnew
    rw [← htable] at hentry
    have hrefused := refused_while_held hentry hrest p hp hage
      (hpasses'.tableDigest_eq.trans hdigest)
    rw [hrefused] at hagain
    cases hagain

/-! ## Runs that the table does not cover -/

/-- A verification that accepts one signature, and a digest without collisions. -/
def sampleCrypto : Crypto Bytes where
  verify _ signature _ := signature == List.replicate 64 170
  sha256 := id
  isInteraction _ := true

/-- A server with a callback and the default window. -/
def sampleConfig : Config where
  publicKeyHex := List.replicate 64 48
  replayWindowMs := 300000
  routes := []
  callback := true

/-- A request with the given headers. -/
def sampleArrival (signature timestamp : Bytes) (wallTime : Int) (nowNs : Nat) : Arrival where
  request :=
    { method := asciiText "POST"
      path := asciiText "/"
      headers := [(asciiText "X-Signature-Ed25519", signature),
        (asciiText "X-Signature-Timestamp", timestamp)]
      body := asciiText "x" }
  wallTime
  nowNs
  payloadAllocated := true

/-- Both clocks go on, the two requests are the same, and both are handled. -/
def HandledTwice (first again : Arrival) : Prop :=
  first.wallTime ≤ again.wallTime ∧ first.nowNs ≤ again.nowNs ∧
    first.request.signed = again.request.signed ∧ first.request.signed ≠ none ∧
    outcomes sampleCrypto sampleConfig [first, again] noEntries = [.callback, .callback]

instance (first again : Arrival) : Decidable (HandledTwice first again) :=
  inferInstanceAs (Decidable (_ ∧ _ ∧ _ ∧ _ ∧ _))

/-- A fresh request is handled again under another spelling of its signature, after its entry
expired (its timestamp was ahead of the clock), and with a timestamp too long for a
digest. -/
theorem handled_twice :
    HandledTwice (sampleArrival (List.replicate 128 97) (asciiText "1000") 1000 0)
      (sampleArrival (List.replicate 128 65) (asciiText "1000") 1000 1) ∧
    HandledTwice (sampleArrival (List.replicate 128 97) (asciiText "1000") 700 0)
      (sampleArrival (List.replicate 128 97) (asciiText "1000") 1001 301000000000) ∧
    HandledTwice
      (sampleArrival (List.replicate 128 97) (List.replicate 33 48 ++ asciiText "1000") 1000 0)
      (sampleArrival (List.replicate 128 97) (List.replicate 33 48 ++ asciiText "1000") 1000 1) := by
  decide +kernel

/-- A request that comes again with the same headers a second later is refused. -/
theorem handled_at_most_once_again :
    let first := sampleArrival (List.replicate 128 97) (asciiText "1000") 1000 0
    let again := sampleArrival (List.replicate 128 97) (asciiText "1000") 1001 1000000000
    ([first, again].zip (outcomes sampleCrypto sampleConfig [first, again] noEntries)).Pairwise
      fun a b => a.2.handled = true → b.2.handled = true → a.1.request.signed ≠ b.1.request.signed := by
  intro first again
  have hcovers : sampleConfig.covers first again := by
    refine ⟨rfl, ?_, by decide⟩
    have hheader : again.request.header "X-Signature-Timestamp" = some (asciiText "1000") := by
      decide +kernel
    intro timestamp htimestamp
    obtain rfl : asciiText "1000" = timestamp := by
      rw [hheader] at htimestamp
      exact Option.some.inj htimestamp
    decide +kernel
  refine handled_at_most_once sampleCrypto sampleConfig [first, again]
    (List.pairwise_pair.mpr (by decide)) ?_ noEntries
  exact List.pairwise_pair.mpr fun _ _ _ => hcovers

end Dcc.Interactions
