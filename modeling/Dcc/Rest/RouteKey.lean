import Mathlib.Data.List.Basic
import Mathlib.Data.List.TakeWhile
import Dcc.Lib.Split
import Dcc.Rest.RateLimit

/-!
# Route keys

`dcc_rest_route_key` turns the method and the path of a request into the text
under which its rate limit is kept.  Scheme, host and query are cut off; routes
of webhooks and interactions are replaced by a fingerprint; in all others the
ids that do not choose a rate limit are replaced by `:id`.

* `keyText`: the key of a route, segment by segment and without a buffer;
* `routeLoop_eq`: the loop writes as much of it as the buffer holds;
* `keyText_injective`: the key of a route determines its parts;
* `route_key_law`: a query and the minor ids do not change the key, the method
  and all other parts do.
-/

namespace Dcc.Rest

/-! ## The key -/

/-- `'/'`. -/
def chSlash : UInt8 := 0x2f

/-- `'?'`. -/
def chQuestion : UInt8 := 0x3f

/-- `"://"`. -/
def schemeMark : Bytes := [0x3a, 0x2f, 0x2f]

/-- `" opaque:"`. -/
def opaqueMark : Bytes := [0x20, 0x6f, 0x70, 0x61, 0x71, 0x75, 0x65, 0x3a]

/-- `":id"`. -/
def minorMark : Bytes := [0x3a, 0x69, 0x64]

/-- `"channels"`. -/
def channelsText : Bytes := [0x63, 0x68, 0x61, 0x6e, 0x6e, 0x65, 0x6c, 0x73]

/-- `"guilds"`. -/
def guildsText : Bytes := [0x67, 0x75, 0x69, 0x6c, 0x64, 0x73]

/-- `"webhooks"`. -/
def webhooksText : Bytes := [0x77, 0x65, 0x62, 0x68, 0x6f, 0x6f, 0x6b, 0x73]

/-- `"interactions"`. -/
def interactionsText : Bytes :=
  [0x69, 0x6e, 0x74, 0x65, 0x72, 0x61, 0x63, 0x74, 0x69, 0x6f, 0x6e, 0x73]

/-- `"applications"`. -/
def applicationsText : Bytes :=
  [0x61, 0x70, 0x70, 0x6c, 0x69, 0x63, 0x61, 0x74, 0x69, 0x6f, 0x6e, 0x73]

/-- `dcc_rest_route_resource_t`. -/
inductive RouteResource
  | none
  | channels
  | guilds
  | webhooks
  | interactions
  | applications
  deriving DecidableEq, Repr

/-- `dcc_rest_route_major_resource`. -/
def routeMajorResource (span : Bytes) : RouteResource :=
  if span = channelsText then .channels
  else if span = guildsText then .guilds
  else if span = webhooksText then .webhooks
  else if span = interactionsText then .interactions
  else if span = applicationsText then .applications
  else .none

/-- `dcc_rest_route_span_is_digits`. -/
def routeSpanIsDigits (span : Bytes) : Bool :=
  span ≠ [] && span.all fun c => 0x30 ≤ c && c ≤ 0x39

/-- `dcc_rest_route_append`: as much of the value as the buffer holds with its NUL. -/
def routeAppend (outSize : Nat) (out : Bytes) : Bytes → Bytes
  | [] => out
  | c :: value => if out.length + 1 < outSize then routeAppend outSize (out ++ [c]) value else out

/-- What the scanner remembers of the segments it has passed. -/
structure RouteScan where
  nextMajor : RouteResource
  preserveNextToken : Bool
  deriving DecidableEq, Repr

/-- The scanner at the start of a route. -/
def RouteScan.start : RouteScan := ⟨.none, false⟩

/-- One segment: what is written for it, and the scanner behind it. -/
def routeSegment (scan : RouteScan) (segment : Bytes) : Bytes × RouteScan :=
  if scan.preserveNextToken then (segment, ⟨.none, false⟩)
  else if routeSpanIsDigits segment = true ∧ scan.nextMajor ≠ .none then
    (segment, ⟨.none, scan.nextMajor = .webhooks ∨ scan.nextMajor = .interactions⟩)
  else if routeSpanIsDigits segment then (minorMark, { scan with nextMajor := .none })
  else (segment, ⟨routeMajorResource segment, false⟩)

/-- The loop over the segments; every round leaves a shorter route. -/
def routeLoop (outSize : Nat) : Nat → Bytes → RouteScan → Bytes → Bytes
  | 0, _, _, out => out
  | fuel + 1, route, scan, out =>
    match route with
    | [] => out
    | c :: p =>
      if out.length + 1 < outSize then
        if c = chSlash then routeLoop outSize fuel p scan (out ++ [chSlash])
        else
          let segment := (c :: p).takeWhile (· != chSlash)
          let written := routeSegment scan segment
          routeLoop outSize fuel ((c :: p).dropWhile (· != chSlash)) written.2
            (routeAppend outSize out written.1)
      else out

/-- What is behind the first `"://"`. -/
def afterScheme : Bytes → Option Bytes
  | [] => none
  | c :: p => if schemeMark.isPrefixOf (c :: p) then some (p.drop 2) else afterScheme p

/-- The route of a path with what follows it: a scheme and a host are cut off. -/
def routeStart (path : Bytes) : Bytes :=
  match afterScheme path with
  | none => path
  | some rest => if chSlash ∈ rest then rest.dropWhile (· != chSlash) else [chSlash]

/-- The route of a path, without the query. -/
def routeOf (path : Bytes) : Bytes := (routeStart path).takeWhile (· != chQuestion)

/-- A route of webhooks or interactions, of which no part may be kept. -/
def routeOpaque (route : Bytes) : Bool :=
  (chSlash :: webhooksText ++ [chSlash]).isPrefixOf route ||
    (chSlash :: interactionsText ++ [chSlash]).isPrefixOf route

/-- `dcc_rest_route_key` into a buffer of `outSize` bytes, as a C string; `fingerprint` is
`dcc_endpoint_sensitive_route_fingerprint`, which may fail. -/
def routeKey (fingerprint : Bytes → Option Bytes) (method path : Bytes) (outSize : Nat) : Bytes :=
  let route := routeOf path
  if routeOpaque route then
    match fingerprint route with
    | some hex => (method ++ (opaqueMark ++ hex)).take (outSize - 1)
    | none => []
  else
    let out := routeAppend outSize [] method
    let out := if out.length + 1 < outSize then out ++ [0x20] else out
    routeLoop outSize route.length route .start out

/-! ## The key without a buffer -/

/-- What is written for a row of segments; between two slashes there is nothing to write. -/
def keySegments : RouteScan → List Bytes → List Bytes
  | _, [] => []
  | scan, segment :: segments =>
    if segment = [] then [] :: keySegments scan segments
    else (routeSegment scan segment).1 :: keySegments (routeSegment scan segment).2 segments

/-- The key of a route from a state of the scanner on. -/
def keyText (scan : RouteScan) (route : Bytes) : Bytes :=
  [chSlash].intercalate (keySegments scan (route.splitOn chSlash))

section Text

variable {scan : RouteScan} {route segment : Bytes} {outSize : Nat}

theorem keySegments_ne_nil {segments : List Bytes} (h : segments ≠ []) :
    keySegments scan segments ≠ [] := by
  cases segments with
  | nil => exact absurd rfl h
  | cons segment segments =>
    rw [keySegments]
    split <;> exact List.cons_ne_nil _ _

theorem intercalate_cons {a : Bytes} {l : List Bytes} (h : l ≠ []) :
    [chSlash].intercalate (a :: l) = a ++ chSlash :: [chSlash].intercalate l := by
  cases l with
  | nil => exact absurd rfl h
  | cons b l => simp [List.intercalate, List.intersperse]

theorem keyText_nil : keyText scan [] = [] := by
  simp [keyText, keySegments]

theorem keyText_slash : keyText scan (chSlash :: route) = chSlash :: keyText scan route := by
  have hsplit : (chSlash :: route).splitOn chSlash = [] :: route.splitOn chSlash := by
    have happend := List.splitOn_append_cons_self (a := chSlash) [] route
    simpa using happend
  rw [keyText, hsplit, keySegments, if_pos rfl,
    intercalate_cons (keySegments_ne_nil (List.splitOn_ne_nil _ _)), keyText]
  rfl

theorem keyText_segment (hne : segment ≠ []) (hslash : chSlash ∉ segment)
    (hroute : route = [] ∨ ∃ p, route = chSlash :: p) :
    keyText scan (segment ++ route) =
      (routeSegment scan segment).1 ++ keyText (routeSegment scan segment).2 route := by
  obtain rfl | ⟨p, rfl⟩ := hroute
  · rw [List.append_nil, keyText_nil, keyText, List.splitOn_eq_singleton hslash, keySegments,
      if_neg hne, keySegments]
    simp [List.intercalate]
  · rw [keyText, List.splitOn_append_cons_self, List.splitOn_eq_singleton hslash,
      List.singleton_append, keySegments, if_neg hne,
      intercalate_cons (keySegments_ne_nil (List.splitOn_ne_nil _ _)), keyText_slash, keyText]

theorem routeAppend_eq {out value : Bytes} (h : out.length ≤ outSize - 1) :
    routeAppend outSize out value = (out ++ value).take (outSize - 1) := by
  induction value generalizing out with
  | nil =>
    rw [routeAppend, List.append_nil, List.take_of_length_le h]
  | cons c value ih =>
    rw [routeAppend]
    by_cases hroom : out.length + 1 < outSize
    · rw [if_pos hroom, ih (by rw [List.length_append, List.length_singleton]; omega),
        List.append_assoc, List.singleton_append]
    · rw [if_neg hroom, List.take_append_of_le_length (by omega), List.take_of_length_le h]

theorem take_append_take (n : Nat) (text rest : Bytes) :
    (text.take n ++ rest).take n = (text ++ rest).take n := by
  by_cases h : text.length ≤ n
  · rw [List.take_of_length_le h]
  · rw [List.take_append_of_le_length (by rw [List.length_take]; omega),
      List.take_append_of_le_length (by omega), List.take_take, Nat.min_self]

/-- **The loop writes the key of the route** as far as the buffer goes. -/
theorem routeLoop_eq {fuel : Nat} {out : Bytes} (hfuel : route.length ≤ fuel)
    (hout : out.length ≤ outSize - 1) :
    routeLoop outSize fuel route scan out = (out ++ keyText scan route).take (outSize - 1) := by
  induction fuel generalizing route scan out with
  | zero =>
    obtain rfl : route = [] := List.length_eq_zero_iff.mp (by omega)
    rw [routeLoop, keyText_nil, List.append_nil, List.take_of_length_le hout]
  | succ fuel ih =>
    cases route with
    | nil => rw [routeLoop, keyText_nil, List.append_nil, List.take_of_length_le hout]
    | cons c p =>
      rw [List.length_cons] at hfuel
      rw [routeLoop]
      by_cases hroom : out.length + 1 < outSize
      case neg =>
        rw [if_neg hroom, List.take_append_of_le_length (by omega), List.take_of_length_le hout]
      rw [if_pos hroom]
      by_cases hc : c = chSlash
      · have hlength : (out ++ [chSlash]).length ≤ outSize - 1 := by
          rw [List.length_append, List.length_singleton]
          omega
        rw [if_pos hc, ih (by omega) hlength, hc, keyText_slash, List.append_assoc,
          List.singleton_append]
      · have hne : (c :: p).takeWhile (· != chSlash) ≠ [] := by
          rw [List.takeWhile_cons_of_pos (by simpa using hc)]
          exact List.cons_ne_nil _ _
        have hslash : chSlash ∉ (c :: p).takeWhile (· != chSlash) := by
          intro hmem
          have hinside := List.mem_takeWhile_imp hmem
          simp at hinside
        have hrest : (c :: p).dropWhile (· != chSlash) = [] ∨
            ∃ q, (c :: p).dropWhile (· != chSlash) = chSlash :: q := by
          cases hdrop : (c :: p).dropWhile (· != chSlash) with
          | nil => exact .inl rfl
          | cons d q =>
            have hhead := List.head?_dropWhile_not (· != chSlash) (c :: p)
            rw [hdrop] at hhead
            obtain rfl : d = chSlash := by simpa using hhead
            exact .inr ⟨q, rfl⟩
        have hshorter : ((c :: p).dropWhile (· != chSlash)).length ≤ fuel := by
          rw [List.dropWhile_cons_of_pos (by simpa using hc)]
          have hle := (List.dropWhile_suffix (fun d : UInt8 => d != chSlash) (l := p)).length_le
          omega
        have hsplit : keyText scan ((c :: p).takeWhile (· != chSlash) ++
            (c :: p).dropWhile (· != chSlash)) = _ := keyText_segment hne hslash hrest
        rw [List.takeWhile_append_dropWhile] at hsplit
        have hlength : ((out ++ (routeSegment scan
            ((c :: p).takeWhile (· != chSlash))).1).take (outSize - 1)).length ≤ outSize - 1 := by
          rw [List.length_take]
          omega
        simp only [if_neg hc]
        rw [routeAppend_eq hout, ih hshorter hlength, hsplit, ← List.append_assoc]
        exact take_append_take _ _ _

end Text

section Key

variable {fingerprint : Bytes → Option Bytes} {method path path' : Bytes} {outSize : Nat}

theorem routeKey_plain (h : routeOpaque (routeOf path) = false) :
    routeKey fingerprint method path outSize =
      (method ++ 0x20 :: keyText .start (routeOf path)).take (outSize - 1) := by
  have hmethod : routeAppend outSize [] method = method.take (outSize - 1) :=
    routeAppend_eq (by simp)
  rw [routeKey, if_neg (by rw [h]; decide), hmethod]
  by_cases hroom : (method.take (outSize - 1)).length + 1 < outSize
  · have hlength : (method.take (outSize - 1) ++ [0x20]).length ≤ outSize - 1 := by
      rw [List.length_append, List.length_singleton]
      omega
    simp only [if_pos hroom]
    rw [routeLoop_eq (Nat.le_refl _) hlength, List.append_assoc, take_append_take]
    rfl
  · have hlength : (method.take (outSize - 1)).length ≤ outSize - 1 := by
      rw [List.length_take]
      omega
    simp only [if_neg hroom]
    rw [routeLoop_eq (Nat.le_refl _) hlength, take_append_take]
    rw [List.length_take] at hroom
    rw [List.take_append_of_le_length (by omega), List.take_append_of_le_length (by omega)]

theorem routeKey_opaque (h : routeOpaque (routeOf path) = true) :
    routeKey fingerprint method path outSize = ((fingerprint (routeOf path)).elim [] fun hex =>
        (method ++ (opaqueMark ++ hex)).take (outSize - 1)) := by
  rw [routeKey, if_pos h]
  cases fingerprint (routeOf path) with
  | none => rfl
  | some hex => rfl

theorem routeKey_congr (h : routeOf path = routeOf path') :
    routeKey fingerprint method path outSize = routeKey fingerprint method path' outSize := by
  rw [routeKey, routeKey, h]

end Key

/-! ## Queries -/

/-- A query does not stand for the start of the route: it has no scheme, unless the path is
a URL already, and no slash, if that URL has no path of its own. -/
def QueryNeutral (path query : Bytes) : Prop :=
  match afterScheme path with
  | none => afterScheme query = none
  | some rest => chSlash ∈ rest ∨ chSlash ∉ query

theorem mark_append {a b c : UInt8} (p more : Bytes) :
    schemeMark.isPrefixOf (a :: b :: c :: p ++ more) = schemeMark.isPrefixOf (a :: b :: c :: p) := by
  simp [schemeMark, List.isPrefixOf]

theorem afterScheme_length {path rest : Bytes} (h : afterScheme path = some rest) :
    rest.length + 3 ≤ path.length := by
  induction path with
  | nil => cases h
  | cons c p ih =>
    rw [afterScheme] at h
    split at h
    · next hmark =>
      have hlength := (List.isPrefixOf_iff_prefix.mp hmark).length_le
      rw [← Option.some.inj h, List.length_drop]
      simp only [schemeMark, List.length_cons, List.length_nil] at hlength ⊢
      omega
    · have hp := ih h
      rw [List.length_cons]
      omega

theorem afterScheme_append_some {path rest : Bytes} (h : afterScheme path = some rest)
    (more : Bytes) : afterScheme (path ++ more) = some (rest ++ more) := by
  induction path with
  | nil => cases h
  | cons c p ih =>
    have hlength := afterScheme_length h
    rw [List.length_cons] at hlength
    obtain ⟨d, e, q, rfl⟩ : ∃ d e q, p = d :: e :: q := by
      match p, hlength with
      | d :: e :: q, _ => exact ⟨d, e, q, rfl⟩
    rw [afterScheme] at h
    rw [List.cons_append, afterScheme, ← List.cons_append, mark_append]
    by_cases hmark : schemeMark.isPrefixOf (c :: d :: e :: q) = true
    · rw [if_pos hmark] at h ⊢
      rw [← Option.some.inj h]
      rfl
    · rw [if_neg hmark] at h ⊢
      exact ih h

/-- Where two texts meet no scheme can lie across, unless the bytes there fit. -/
def Unmarked (path more : Bytes) : Prop :=
  more.head? ≠ some chSlash ∨ ∀ c ∈ path.getLast?, c ≠ 0x3a ∧ c ≠ chSlash

theorem afterScheme_append_none {path more : Bytes} (h : afterScheme path = none)
    (hedge : Unmarked path more) : afterScheme (path ++ more) = afterScheme more := by
  induction path with
  | nil => rfl
  | cons c p ih =>
    rw [afterScheme] at h
    by_cases hmark : schemeMark.isPrefixOf (c :: p) = true
    · rw [if_pos hmark] at h
      cases h
    rw [if_neg hmark] at h
    have hrest : afterScheme (p ++ more) = afterScheme more := by
      cases p with
      | nil => rfl
      | cons d q =>
        apply ih h
        rw [Unmarked, List.getLast?_cons_cons] at hedge
        exact hedge
    have hacross : ¬ schemeMark.isPrefixOf (c :: p ++ more) = true := by
      match p with
      | d :: e :: q =>
        rw [mark_append]
        exact hmark
      | [d] =>
        intro hall
        cases more with
        | nil => exact hmark hall
        | cons e more =>
          simp only [schemeMark, List.cons_append, List.nil_append, List.isPrefixOf,
            Bool.and_eq_true, beq_iff_eq] at hall
          obtain ⟨-, hd, he, -⟩ := hall
          obtain hhead | hlast := hedge
          · exact hhead (by rw [← he]; rfl)
          · exact (hlast d rfl).2 hd.symm
      | [] =>
        intro hall
        cases more with
        | nil => exact hmark hall
        | cons e more =>
          simp only [schemeMark, List.cons_append, List.nil_append, List.isPrefixOf,
            Bool.and_eq_true, beq_iff_eq] at hall
          obtain ⟨hc, he, -⟩ := hall
          obtain hhead | hlast := hedge
          · exact hhead (by rw [← he]; rfl)
          · exact (hlast c rfl).1 hc.symm
    rw [List.cons_append, afterScheme, ← List.cons_append, if_neg hacross, hrest]

theorem routeStart_of_scheme {path rest : Bytes} (h : afterScheme path = some rest) :
    routeStart path = if chSlash ∈ rest then rest.dropWhile (· != chSlash) else [chSlash] := by
  rw [routeStart, h]

/-- **A query is cut off.** -/
theorem routeOf_query {path query : Bytes} (h : QueryNeutral path query) :
    routeOf (path ++ chQuestion :: query) = routeOf path := by
  have hcut : ∀ text : Bytes, (text ++ chQuestion :: query).takeWhile (· != chQuestion) =
      text.takeWhile (· != chQuestion) := by
    intro text
    rw [List.takeWhile_append]
    split
    · next hall =>
      rw [List.takeWhile_cons_of_neg (by simp), List.append_nil]
      exact ((List.takeWhile_prefix _).eq_of_length hall).symm
    · rfl
  unfold QueryNeutral at h
  unfold routeOf
  cases hscheme : afterScheme path with
  | none =>
    rw [hscheme] at h
    have hmore : afterScheme (chQuestion :: query) = none := h
    have hwhole : afterScheme (path ++ chQuestion :: query) = none := by
      rw [afterScheme_append_none hscheme (.inl (by simp [chQuestion, chSlash])), hmore]
    rw [routeStart, routeStart, hwhole, hscheme]
    exact hcut path
  | some rest =>
    rw [hscheme] at h
    rw [routeStart_of_scheme (afterScheme_append_some hscheme _), routeStart_of_scheme hscheme]
    by_cases hslash : chSlash ∈ rest
    · rw [if_pos (List.mem_append_left _ hslash), if_pos hslash, List.dropWhile_append,
        if_neg, hcut]
      rw [List.isEmpty_iff, List.dropWhile_eq_nil_iff]
      intro hall
      simpa using hall chSlash hslash
    · have hquery : chSlash ∉ query := h.resolve_left hslash
      have hnone : chSlash ∉ rest ++ chQuestion :: query := by
        rw [List.mem_append, List.mem_cons, not_or, not_or]
        exact ⟨hslash, by decide, hquery⟩
      rw [if_neg hslash, if_neg hnone]

/-! ## The parts of a route -/

/-- The parts of a route: text that is fixed, the id that follows the name of a resource,
the token behind the id of a webhook or an interaction, and any other id. -/
inductive RoutePart
  | fixed (text : Bytes)
  | major (id : Bytes)
  | token (text : Bytes)
  | minor
  deriving DecidableEq, Repr

/-- The part that a segment is. -/
def routePart (scan : RouteScan) (segment : Bytes) : RoutePart :=
  if scan.preserveNextToken then .token segment
  else if routeSpanIsDigits segment = true ∧ scan.nextMajor ≠ .none then .major segment
  else if routeSpanIsDigits segment then .minor
  else .fixed segment

/-- The parts of a row of segments. -/
def routeParts : RouteScan → List Bytes → List RoutePart
  | _, [] => []
  | scan, segment :: segments =>
    if segment = [] then .fixed [] :: routeParts scan segments
    else routePart scan segment :: routeParts (routeSegment scan segment).2 segments

/-- The parts of the route of a path. -/
def partsOf (path : Bytes) : List RoutePart := routeParts .start ((routeOf path).splitOn chSlash)

/-- What a part looks like in the key. -/
def RoutePart.text : RoutePart → Bytes
  | .fixed text => text
  | .major id => id
  | .token text => text
  | .minor => minorMark

section Parts

variable {scan : RouteScan} {segment segment' : Bytes} {segments segments' : List Bytes}

theorem routeSegment_text : (routeSegment scan segment).1 = (routePart scan segment).text := by
  unfold routeSegment routePart
  split_ifs <;> rfl

theorem keySegments_eq :
    keySegments scan segments = (routeParts scan segments).map RoutePart.text := by
  induction segments generalizing scan with
  | nil => rfl
  | cons segment segments ih =>
    rw [keySegments, routeParts]
    by_cases hnil : segment = []
    · rw [if_pos hnil, if_pos hnil, ih]
      rfl
    · rw [if_neg hnil, if_neg hnil, ih, routeSegment_text]
      rfl

theorem routeSegment_ne_nil (h : segment ≠ []) : (routeSegment scan segment).1 ≠ [] := by
  unfold routeSegment
  split_ifs
  · exact h
  · exact h
  · exact List.cons_ne_nil _ _
  · exact h

theorem slash_not_mem_routeSegment (h : chSlash ∉ segment) :
    chSlash ∉ (routeSegment scan segment).1 := by
  unfold routeSegment
  split_ifs
  · exact h
  · exact h
  · simp [minorMark, chSlash]
  · exact h

theorem part_of_text (htext : (routeSegment scan segment).1 = (routeSegment scan segment').1)
    (hfixed : routePart scan segment ≠ .fixed minorMark)
    (hfixed' : routePart scan segment' ≠ .fixed minorMark) :
    routePart scan segment = routePart scan segment' ∧
      (routeSegment scan segment).2 = (routeSegment scan segment').2 := by
  unfold routeSegment at htext ⊢
  unfold routePart at hfixed hfixed' ⊢
  by_cases hpreserve : scan.preserveNextToken = true
  · simp only [if_pos hpreserve] at htext ⊢
    exact ⟨by rw [htext], trivial⟩
  simp only [if_neg hpreserve] at htext hfixed hfixed' ⊢
  by_cases hdigits : routeSpanIsDigits segment = true
  · by_cases hdigits' : routeSpanIsDigits segment' = true
    · by_cases hmajor : scan.nextMajor = .none
      · simp [hdigits, hdigits', hmajor]
      · simp only [hdigits, hdigits', hmajor, ne_eq, not_false_eq_true, and_self, if_true]
          at htext ⊢
        exact ⟨by rw [htext], trivial⟩
    · by_cases hmajor : scan.nextMajor = .none
      · simp [hdigits, hdigits', hmajor] at htext hfixed'
        exact absurd htext.symm hfixed'
      · simp [hdigits, hdigits', hmajor] at htext
        rw [htext] at hdigits
        exact absurd hdigits hdigits'
  · by_cases hdigits' : routeSpanIsDigits segment' = true
    · by_cases hmajor : scan.nextMajor = .none
      · simp [hdigits, hdigits', hmajor] at htext hfixed
        exact absurd htext hfixed
      · simp [hdigits, hdigits', hmajor] at htext
        rw [htext] at hdigits
        exact absurd hdigits' hdigits
    · simp [hdigits, hdigits'] at htext ⊢
      exact ⟨htext, by rw [htext]⟩

theorem parts_of_texts (htext : keySegments scan segments = keySegments scan segments')
    (hfixed : .fixed minorMark ∉ routeParts scan segments)
    (hfixed' : .fixed minorMark ∉ routeParts scan segments') :
    routeParts scan segments = routeParts scan segments' := by
  induction segments generalizing scan segments' with
  | nil =>
    cases segments' with
    | nil => rfl
    | cons segment' segments' =>
      rw [keySegments] at htext
      exact absurd htext.symm (keySegments_ne_nil (List.cons_ne_nil _ _))
  | cons segment segments ih =>
    cases segments' with
    | nil => exact absurd htext (keySegments_ne_nil (List.cons_ne_nil _ _))
    | cons segment' segments' =>
      rw [keySegments, keySegments] at htext
      rw [routeParts] at hfixed hfixed' ⊢
      rw [routeParts]
      by_cases hnil : segment = []
      · by_cases hnil' : segment' = []
        · rw [if_pos hnil] at htext hfixed ⊢
          rw [if_pos hnil'] at htext hfixed' ⊢
          rw [ih (List.cons.inj htext).2 (List.not_mem_of_not_mem_cons hfixed)
            (List.not_mem_of_not_mem_cons hfixed')]
        · rw [if_pos hnil, if_neg hnil'] at htext
          exact absurd (List.cons.inj htext).1.symm (routeSegment_ne_nil hnil')
      · by_cases hnil' : segment' = []
        · rw [if_neg hnil, if_pos hnil'] at htext
          exact absurd (List.cons.inj htext).1 (routeSegment_ne_nil hnil)
        · rw [if_neg hnil] at htext hfixed ⊢
          rw [if_neg hnil'] at htext hfixed' ⊢
          rw [List.mem_cons, not_or] at hfixed hfixed'
          obtain ⟨hhead, htail⟩ := List.cons.inj htext
          obtain ⟨hpart, hnext⟩ := part_of_text hhead (Ne.symm hfixed.1)
            (Ne.symm hfixed'.1)
          rw [← hnext] at htail hfixed' ⊢
          rw [hpart, ih htail hfixed.2 hfixed'.2]

theorem slash_not_mem_keySegments (h : ∀ segment ∈ segments, chSlash ∉ segment) :
    ∀ text ∈ keySegments scan segments, chSlash ∉ text := by
  induction segments generalizing scan with
  | nil => simp [keySegments]
  | cons segment segments ih =>
    rw [List.forall_mem_cons] at h
    rw [keySegments]
    split
    · rw [List.forall_mem_cons]
      exact ⟨List.not_mem_nil, ih h.2⟩
    · rw [List.forall_mem_cons]
      exact ⟨slash_not_mem_routeSegment h.1, ih h.2⟩

end Parts

/-! ## The key law -/

/-- The key fits the buffer with its NUL. -/
def RouteFits (method path : Bytes) (outSize : Nat) : Prop :=
  (method ++ 0x20 :: keyText .start (routeOf path)).length < outSize

theorem append_blank_inj {a a' b b' : Bytes} (ha : (0x20 : UInt8) ∉ a) (ha' : (0x20 : UInt8) ∉ a')
    (h : a ++ 0x20 :: b = a' ++ 0x20 :: b') : a = a' ∧ b = b' := by
  have htake : ∀ {text rest : Bytes}, (0x20 : UInt8) ∉ text →
      (text ++ 0x20 :: rest).takeWhile (· != 0x20) = text := by
    intro text rest hblank
    rw [List.takeWhile_append_of_pos, List.takeWhile_cons_of_neg (by simp), List.append_nil]
    intro c hc
    simpa using fun heq : c = 0x20 => hblank (heq ▸ hc)
  have hfirst : a = a' := by rw [← htake ha, h, htake ha']
  rw [hfirst] at h
  exact ⟨hfirst, (List.cons.inj (List.append_cancel_left h)).2⟩

/-- **The key of a route determines its parts**, as long as no fixed part reads `:id`. -/
theorem keyText_injective {route route' : Bytes} {scan : RouteScan}
    (h : keyText scan route = keyText scan route')
    (hfixed : .fixed minorMark ∉ routeParts scan (route.splitOn chSlash))
    (hfixed' : .fixed minorMark ∉ routeParts scan (route'.splitOn chSlash)) :
    routeParts scan (route.splitOn chSlash) = routeParts scan (route'.splitOn chSlash) := by
  have htexts : ∀ text : Bytes, (keyText scan text).splitOn chSlash =
      keySegments scan (text.splitOn chSlash) := by
    intro text
    rw [keyText, List.splitOn_intercalate]
    · apply slash_not_mem_keySegments
      intro segment hmem
      exact (Split.between_of_mem hmem).1
    · exact keySegments_ne_nil (List.splitOn_ne_nil _ _)
  have hsame := congrArg (List.splitOn chSlash) h
  rw [htexts, htexts] at hsame
  exact parts_of_texts hsame hfixed hfixed'

/-- **The law of route keys.**  A query that does not stand for the start of the route does
not change the key.  Routes that are not kept secret and agree in all parts, up to the
values of their minor ids, have one key; and where their keys fit the buffer, no fixed part
reads `:id` and no method has a blank, another method or another part gives another key. -/
theorem route_key_law (fingerprint : Bytes → Option Bytes) (method path : Bytes) (outSize : Nat) :
    (∀ query, QueryNeutral path query →
      routeKey fingerprint method (path ++ chQuestion :: query) outSize =
        routeKey fingerprint method path outSize) ∧
    ∀ path', routeOpaque (routeOf path) = false → routeOpaque (routeOf path') = false →
      (partsOf path = partsOf path' →
        routeKey fingerprint method path outSize = routeKey fingerprint method path' outSize) ∧
      ∀ method', (0x20 : UInt8) ∉ method → (0x20 : UInt8) ∉ method' →
        RouteFits method path outSize → RouteFits method' path' outSize →
        .fixed minorMark ∉ partsOf path → .fixed minorMark ∉ partsOf path' →
        (method ≠ method' ∨ partsOf path ≠ partsOf path') →
          routeKey fingerprint method path outSize ≠ routeKey fingerprint method' path' outSize := by
  refine ⟨fun query hquery => routeKey_congr (routeOf_query hquery), fun path' hplain hplain' =>
    ⟨fun hparts => ?_, fun method' hblank hblank' hfits hfits' hfixed hfixed' hdiffer heq => ?_⟩⟩
  · have htext : keyText .start (routeOf path) = keyText .start (routeOf path') := by
      rw [keyText, keyText, keySegments_eq, keySegments_eq]
      exact congrArg (fun parts => [chSlash].intercalate (parts.map RoutePart.text)) hparts
    rw [routeKey_plain hplain, routeKey_plain hplain', htext]
  · unfold RouteFits at hfits hfits'
    rw [routeKey_plain hplain, routeKey_plain hplain', List.take_of_length_le (by omega),
      List.take_of_length_le (by omega)] at heq
    obtain ⟨hmethod, htext⟩ := append_blank_inj hblank hblank' heq
    have hparts := keyText_injective htext hfixed hfixed'
    exact hdiffer.elim (fun hne => hne hmethod) fun hne => hne hparts

/-- `/channels/1/messages/`. -/
def messagesPath : Bytes :=
  [0x2f, 0x63, 0x68, 0x61, 0x6e, 0x6e, 0x65, 0x6c, 0x73, 0x2f, 0x31, 0x2f, 0x6d, 0x65, 0x73, 0x73,
    0x61, 0x67, 0x65, 0x73, 0x2f]

/-- Two messages of a channel, one of them with a query, and another method. -/
theorem route_key_law_messages :
    routeKey some [0x47] (messagesPath ++ [0x32] ++ chQuestion :: [0x61, 0x2f]) 160 =
        routeKey some [0x47] (messagesPath ++ [0x32]) 160 ∧
      routeKey some [0x47] (messagesPath ++ [0x32]) 160 =
        routeKey some [0x47] (messagesPath ++ [0x33]) 160 ∧
      routeKey some [0x47] (messagesPath ++ [0x32]) 160 ≠
        routeKey some [0x50] (messagesPath ++ [0x33]) 160 := by
  obtain ⟨hquery, hlaw⟩ := route_key_law some [0x47] (messagesPath ++ [0x32]) 160
  obtain ⟨hminor, hdiffer⟩ := hlaw (messagesPath ++ [0x33]) (by decide +kernel) (by decide +kernel)
  have hneutral : QueryNeutral (messagesPath ++ [0x32]) [0x61, 0x2f] := by
    have hscheme : afterScheme (messagesPath ++ [0x32]) = none := by decide +kernel
    rw [QueryNeutral, hscheme]
    decide
  refine ⟨hquery _ hneutral, hminor (by decide +kernel), ?_⟩
  apply hdiffer [0x50]
  · decide
  · decide
  · unfold RouteFits
    decide +kernel
  · unfold RouteFits
    decide +kernel
  · decide +kernel
  · decide +kernel
  · exact .inl (by decide)

/-- `/webhooks/1/t/messages/`. -/
def webhookMessagesPath : Bytes :=
  [0x2f, 0x77, 0x65, 0x62, 0x68, 0x6f, 0x6f, 0x6b, 0x73, 0x2f, 0x31, 0x2f, 0x74, 0x2f, 0x6d, 0x65,
    0x73, 0x73, 0x61, 0x67, 0x65, 0x73, 0x2f]

/-- A fingerprint of 64 digits that tells routes apart by their last byte. -/
def lastByteFingerprint (route : Bytes) : Option Bytes :=
  some (List.replicate 63 0x30 ++ route.drop (route.length - 1))

/-- Two messages of a webhook, which agree in all parts, have two keys. -/
theorem webhook_messages_differ :
    ¬ ∀ (fingerprint : Bytes → Option Bytes) (method path path' : Bytes) (outSize : Nat),
      partsOf path = partsOf path' →
        routeKey fingerprint method path outSize = routeKey fingerprint method path' outSize := by
  intro hall
  have heq := hall lastByteFingerprint [0x47] (webhookMessagesPath ++ [0x33])
    (webhookMessagesPath ++ [0x34]) 160 (by decide +kernel)
  revert heq
  decide +kernel

end Dcc.Rest
