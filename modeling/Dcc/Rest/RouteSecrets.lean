import Dcc.Rest.RouteKey

/-!
# Tokens in route keys

The path of a webhook or an interaction carries a token that authorises the
request.  `dcc_rest_route_key` replaces such a route by a fingerprint, but looks
for it at the start of the route only.

* `SecretPath`: a path with a place for the token, relative or as a URL;
* `keyText_append`: the key of a route, cut at a slash;
* `route_key_hides_iff`: the key depends on the token through the fingerprint
  alone exactly where the route starts with the name of the resource, or the
  token is not reached.
-/

namespace Dcc.Rest

/-! ## Paths with a token -/

/-- A path of a webhook or an interaction around its token: what stands before the name of
the resource (nothing, or a scheme, a host and a prefix, up to a slash), the id, and what
follows the token. -/
structure SecretPath where
  front : Bytes
  webhook : Bool
  id : Bytes
  post : Bytes
  edge : front = [] ∨ ∃ p, front = p ++ [chSlash]
  noQuery : chQuestion ∉ front
  rooted : ∀ rest, afterScheme front = some rest → chSlash ∈ rest
  digits : routeSpanIsDigits id = true
  ends : post = [] ∨ ∃ p, post = chSlash :: p ∨ post = chQuestion :: p

/-- The text of a token: none of the bytes that divide a URL. -/
def IsToken (token : Bytes) : Prop :=
  token ≠ [] ∧ ∀ c ∈ token, c ≠ chSlash ∧ c ≠ chQuestion ∧ c ≠ 0x3a

namespace SecretPath

variable (p : SecretPath)

def resource : Bytes := if p.webhook then webhooksText else interactionsText

/-- The path with a token. -/
def path (token : Bytes) : Bytes :=
  p.front ++ (p.resource ++ chSlash :: (p.id ++ chSlash :: (token ++ p.post)))

/-- The part of the route in front of the resource. -/
def base : Bytes :=
  match afterScheme p.front with
  | none => p.front
  | some rest => rest.dropWhile (· != chSlash)

/-- The route up to the slash in front of the token. -/
def shown : Bytes := p.base ++ (p.resource ++ chSlash :: p.id)

/-- The path is no URL, but what follows the token has a scheme. -/
def Redirected : Prop := afterScheme p.front = none ∧ afterScheme p.post ≠ none

/-- The route starts with the name of a secret resource. -/
def Opaque : Prop := routeOpaque (p.base ++ (p.resource ++ [chSlash])) = true

/-- What stands in the key in front of the token fills the buffer. -/
def Filled (method : Bytes) (outSize : Nat) : Prop :=
  outSize ≤ (method ++ 0x20 :: (keyText .start p.shown ++ [chSlash])).length + 1

/-- The key depends on the token through the fingerprint of the route alone. -/
def Hides (method : Bytes) (outSize : Nat) : Prop :=
  ∃ key : Option Bytes → Bytes, ∀ fingerprint token, IsToken token →
    routeKey fingerprint method (p.path token) outSize = key (fingerprint (routeOf (p.path token)))

end SecretPath

/-! ## The route of such a path -/

theorem afterScheme_of_not_mem {text : Bytes} (h : (0x3a : UInt8) ∉ text) :
    afterScheme text = none := by
  induction text with
  | nil => rfl
  | cons c p ih =>
    rw [List.mem_cons, not_or] at h
    have hmark : ¬ schemeMark.isPrefixOf (c :: p) = true := by
      intro hmark
      simp only [schemeMark, List.isPrefixOf, Bool.and_eq_true, beq_iff_eq] at hmark
      exact h.1 hmark.1
    rw [afterScheme, if_neg hmark]
    exact ih h.2

theorem mem_of_afterScheme {text rest : Bytes} {c : UInt8} (h : afterScheme text = some rest)
    (hc : c ∈ rest) : c ∈ text := by
  induction text with
  | nil => cases h
  | cons d p ih =>
    rw [afterScheme] at h
    split at h
    · rw [← Option.some.inj h] at hc
      exact List.mem_cons_of_mem _ (List.mem_of_mem_drop hc)
    · exact List.mem_cons_of_mem _ (ih h)

theorem digits_bytes {span : Bytes} (h : routeSpanIsDigits span = true) : IsToken span := by
  rw [routeSpanIsDigits, Bool.and_eq_true, List.all_eq_true] at h
  obtain ⟨hne, hall⟩ := h
  refine ⟨by simpa using hne, fun c hc => ?_⟩
  have hrange := hall c hc
  rw [Bool.and_eq_true, decide_eq_true_eq, decide_eq_true_eq] at hrange
  refine ⟨?_, ?_, ?_⟩ <;> intro heq <;> rw [heq] at hrange <;> exact absurd hrange (by decide)

theorem isToken_of_all {text : Bytes} (hne : text ≠ [])
    (h : (text.all fun c => c != chSlash && (c != chQuestion && c != 0x3a)) = true) :
    IsToken text := by
  refine ⟨hne, fun c hc => ?_⟩
  simpa using List.all_eq_true.mp h c hc

namespace SecretPath

variable (p : SecretPath)

theorem resource_bytes : IsToken p.resource := by
  unfold resource
  split
  · exact isToken_of_all (by decide) (by decide)
  · exact isToken_of_all (by decide) (by decide)

theorem middle_unmarked {token : Bytes} (h : IsToken token) :
    (0x3a : UInt8) ∉ p.resource ++ chSlash :: (p.id ++ chSlash :: token) := by
  intro hmem
  simp only [List.mem_append, List.mem_cons] at hmem
  obtain hmem | hmem | hmem | hmem | hmem := hmem
  · exact (p.resource_bytes.2 _ hmem).2.2 rfl
  · exact absurd hmem (by decide)
  · exact ((digits_bytes p.digits).2 _ hmem).2.2 rfl
  · exact absurd hmem (by decide)
  · exact (h.2 _ hmem).2.2 rfl

theorem path_eq (token : Bytes) :
    p.path token = p.front ++ ((p.resource ++ chSlash :: (p.id ++ chSlash :: token)) ++ p.post) := by
  simp [path]

theorem afterScheme_path {token : Bytes} (h : IsToken token) (hfront : afterScheme p.front = none) :
    afterScheme (p.path token) = afterScheme p.post := by
  obtain ⟨hne, hbytes⟩ := p.resource_bytes
  rw [p.path_eq, afterScheme_append_none hfront, afterScheme_append_none]
  · exact afterScheme_of_not_mem (p.middle_unmarked h)
  · refine .inr fun c hc => ?_
    rw [List.getLast?_append_of_ne_nil _ (List.cons_ne_nil _ _), List.getLast?_cons_of_ne_nil
      (by simp), List.getLast?_append_of_ne_nil _ (List.cons_ne_nil _ _),
      List.getLast?_cons_of_ne_nil h.1] at hc
    have htoken := h.2 c (List.mem_of_getLast? hc)
    exact ⟨htoken.2.2, htoken.1⟩
  · refine .inl ?_
    cases hresource : p.resource with
    | nil => exact absurd hresource hne
    | cons c q =>
      intro hhead
      have hc := hbytes c (by rw [hresource]; exact List.mem_cons_self)
      exact hc.1 (Option.some.inj hhead)

/-- **The route of a path with a token**, where the scheme is not behind the token. -/
theorem routeOf_path {token : Bytes} (h : IsToken token) (hhere : ¬ p.Redirected) :
    routeOf (p.path token) =
      p.shown ++ chSlash :: (token ++ p.post.takeWhile (· != chQuestion)) := by
  have hstart : routeStart (p.path token) =
      p.base ++ (p.resource ++ chSlash :: (p.id ++ chSlash :: (token ++ p.post))) := by
    unfold base
    cases hfront : afterScheme p.front with
    | none =>
      have hpost : afterScheme p.post = none := by
        by_contra hsome
        exact hhere ⟨hfront, hsome⟩
      rw [routeStart, p.afterScheme_path h hfront, hpost]
      rfl
    | some rest =>
      have hslash := p.rooted rest hfront
      rw [path, routeStart_of_scheme (afterScheme_append_some hfront _),
        if_pos (List.mem_append_left _ hslash), List.dropWhile_append, if_neg]
      rw [List.isEmpty_iff, List.dropWhile_eq_nil_iff]
      intro hall
      simpa using hall chSlash hslash
  have hbase : ∀ c ∈ p.base, (c != chQuestion) = true := by
    intro c hc
    have hfront : c ∈ p.front := by
      unfold base at hc
      cases hscheme : afterScheme p.front with
      | none =>
        rw [hscheme] at hc
        exact hc
      | some rest =>
        rw [hscheme] at hc
        exact mem_of_afterScheme hscheme ((List.dropWhile_suffix _).mem hc)
    simpa using fun heq : c = chQuestion => p.noQuery (heq ▸ hfront)
  have hmiddle : ∀ c ∈ p.resource ++ chSlash :: (p.id ++ chSlash :: token),
      (c != chQuestion) = true := by
    intro c hc
    simp only [List.mem_append, List.mem_cons] at hc
    obtain hc | rfl | hc | rfl | hc := hc
    · simpa using (p.resource_bytes.2 _ hc).2.1
    · decide
    · simpa using ((digits_bytes p.digits).2 _ hc).2.1
    · decide
    · simpa using (h.2 _ hc).2.1
  have hsplit : p.base ++ (p.resource ++ chSlash :: (p.id ++ chSlash :: (token ++ p.post))) =
      p.base ++ ((p.resource ++ chSlash :: (p.id ++ chSlash :: token)) ++ p.post) := by simp
  rw [routeOf, hstart, hsplit, List.takeWhile_append_of_pos hbase,
    List.takeWhile_append_of_pos hmiddle, shown]
  simp

end SecretPath

/-! ## The key, cut at a slash -/

/-- The scanner behind a row of segments. -/
def scanAfter : RouteScan → List Bytes → RouteScan
  | scan, [] => scan
  | scan, segment :: segments =>
    if segment = [] then scanAfter scan segments
    else scanAfter (routeSegment scan segment).2 segments

theorem keySegments_append (scan : RouteScan) (segments more : List Bytes) :
    keySegments scan (segments ++ more) =
      keySegments scan segments ++ keySegments (scanAfter scan segments) more := by
  induction segments generalizing scan with
  | nil => rfl
  | cons segment segments ih =>
    rw [List.cons_append, keySegments, keySegments, scanAfter]
    by_cases hnil : segment = []
    · rw [if_pos hnil, if_pos hnil, if_pos hnil, ih, List.cons_append]
    · rw [if_neg hnil, if_neg hnil, if_neg hnil, ih, List.cons_append]

theorem intercalate_append {l l' : List Bytes} (h : l ≠ []) (h' : l' ≠ []) :
    [chSlash].intercalate (l ++ l') =
      [chSlash].intercalate l ++ chSlash :: [chSlash].intercalate l' := by
  induction l with
  | nil => exact absurd rfl h
  | cons a l ih =>
    by_cases hl : l = []
    · subst hl
      rw [List.singleton_append, intercalate_cons h']
      simp [List.intercalate]
    · rw [List.cons_append, intercalate_cons (by simp [hl]), intercalate_cons hl, ih hl,
        List.append_assoc, List.cons_append]

/-- **The key of a route, cut at a slash.** -/
theorem keyText_append (scan : RouteScan) (front rest : Bytes) :
    keyText scan (front ++ chSlash :: rest) =
      keyText scan front ++ chSlash :: keyText (scanAfter scan (front.splitOn chSlash)) rest := by
  rw [keyText, List.splitOn_append_cons_self, keySegments_append, intercalate_append
    (keySegments_ne_nil (List.splitOn_ne_nil _ _)) (keySegments_ne_nil (List.splitOn_ne_nil _ _)),
    keyText, keyText]

theorem starts_congr {name front x y : Bytes} (hname : chSlash ∉ name) :
    (name ++ [chSlash]).isPrefixOf (front ++ chSlash :: x) =
      (name ++ [chSlash]).isPrefixOf (front ++ chSlash :: y) := by
  induction name generalizing front with
  | nil =>
    cases front with
    | nil => simp [List.isPrefixOf]
    | cons c front => simp [List.isPrefixOf]
  | cons d name ih =>
    rw [List.mem_cons, not_or] at hname
    cases front with
    | nil =>
      have hd : (d == chSlash) = false := by simpa using Ne.symm hname.1
      simp [List.isPrefixOf, hd]
    | cons c front =>
      simp only [List.cons_append, List.isPrefixOf]
      rw [ih hname.2]

theorem routeOpaque_congr {front x y : Bytes} (h : front ≠ []) :
    routeOpaque (front ++ chSlash :: x) = routeOpaque (front ++ chSlash :: y) := by
  cases front with
  | nil => exact absurd rfl h
  | cons c front =>
    have hwebhooks : chSlash ∉ webhooksText := by decide
    have hinteractions : chSlash ∉ interactionsText := by decide
    simp only [routeOpaque, List.cons_append, List.isPrefixOf]
    rw [starts_congr (x := x) (y := y) hwebhooks, starts_congr (x := x) (y := y) hinteractions]

namespace SecretPath

variable {p : SecretPath} {method : Bytes} {outSize : Nat}

theorem opaque_iff {token : Bytes} (h : IsToken token) (hhere : ¬ p.Redirected) :
    routeOpaque (routeOf (p.path token)) = true ↔ p.Opaque := by
  have hne : p.base ++ p.resource ≠ [] := by simp [p.resource_bytes.1]
  have hroute : routeOf (p.path token) = (p.base ++ p.resource) ++
      chSlash :: (p.id ++ chSlash :: (token ++ p.post.takeWhile (· != chQuestion))) := by
    rw [p.routeOf_path h hhere, shown]
    simp
  rw [hroute, Opaque, ← List.append_assoc, routeOpaque_congr hne]

/-- **The key of a route that is not kept secret**: what stands in front of the token, the
segment of the token and the rest. -/
theorem routeKey_path {fingerprint : Bytes → Option Bytes} {token : Bytes} (h : IsToken token)
    (hhere : ¬ p.Redirected) (hopen : ¬ p.Opaque) :
    ∃ rest, routeKey fingerprint method (p.path token) outSize =
      ((method ++ 0x20 :: (keyText .start p.shown ++ [chSlash])) ++
        ((routeSegment (scanAfter .start (p.shown.splitOn chSlash)) token).1 ++ rest)).take
          (outSize - 1) := by
  have hplain : routeOpaque (routeOf (p.path token)) = false := by
    rw [← Bool.not_eq_true, opaque_iff h hhere]
    exact hopen
  have htail : p.post.takeWhile (· != chQuestion) = [] ∨
      ∃ q, p.post.takeWhile (· != chQuestion) = chSlash :: q := by
    obtain hpost | ⟨q, hpost | hpost⟩ := p.ends
    · exact .inl (by rw [hpost]; rfl)
    · exact .inr ⟨_, by rw [hpost, List.takeWhile_cons_of_pos (by decide)]⟩
    · exact .inl (by rw [hpost, List.takeWhile_cons_of_neg (by decide)])
  have hslash : chSlash ∉ token := fun hmem => (h.2 _ hmem).1 rfl
  refine ⟨keyText (routeSegment (scanAfter .start (p.shown.splitOn chSlash)) token).2
    (p.post.takeWhile (· != chQuestion)), ?_⟩
  rw [routeKey_plain hplain, p.routeOf_path h hhere, keyText_append,
    keyText_segment h.1 hslash htail]
  simp only [List.append_assoc, List.cons_append, List.nil_append]

theorem routeOf_redirected {token token' : Bytes} (h : IsToken token) (h' : IsToken token')
    (hgone : p.Redirected) : routeOf (p.path token) = routeOf (p.path token') := by
  obtain ⟨hfront, hpost⟩ := hgone
  obtain ⟨rest, hrest⟩ := Option.ne_none_iff_exists'.mp hpost
  have hroute : ∀ {t : Bytes}, IsToken t → routeOf (p.path t) =
      (if chSlash ∈ rest then rest.dropWhile (· != chSlash) else [chSlash]).takeWhile
        (· != chQuestion) := by
    intro t ht
    rw [routeOf, routeStart_of_scheme (by rw [p.afterScheme_path ht hfront, hrest])]
  rw [hroute h, hroute h']

theorem routeSegment_of_letter {scan : RouteScan} {segment : Bytes}
    (h : routeSpanIsDigits segment = false) : (routeSegment scan segment).1 = segment := by
  unfold routeSegment
  split_ifs with hpreserve hmajor hdigits
  · rfl
  · rfl
  · rw [h] at hdigits
    cases hdigits
  · rfl

theorem hides_of_opaque (hhere : ¬ p.Redirected) (hsecret : p.Opaque) :
    p.Hides method outSize := by
  refine ⟨fun hex => hex.elim [] fun hex => (method ++ (opaqueMark ++ hex)).take (outSize - 1),
    fun fingerprint token htoken => ?_⟩
  exact routeKey_opaque ((opaque_iff htoken hhere).mpr hsecret)

theorem hides_of_redirected (hgone : p.Redirected) : p.Hides method outSize := by
  refine ⟨fun hex => routeKey (fun _ => hex) method (p.path [0x61]) outSize,
    fun fingerprint token htoken => ?_⟩
  have hletter : IsToken [0x61] := isToken_of_all (by decide) (by decide)
  have hroute := routeOf_redirected htoken hletter hgone
  simp only [routeKey, hroute]

theorem hides_of_filled (hhere : ¬ p.Redirected) (hopen : ¬ p.Opaque)
    (hfilled : p.Filled method outSize) : p.Hides method outSize := by
  refine ⟨fun _ => (method ++ 0x20 :: (keyText .start p.shown ++ [chSlash])).take (outSize - 1),
    fun fingerprint token htoken => ?_⟩
  obtain ⟨rest, hrest⟩ := routeKey_path htoken hhere hopen
  rw [Filled] at hfilled
  rw [hrest, List.take_append_of_le_length (by omega)]

end SecretPath

/-- **Tokens in route keys.**  The key of a webhook or interaction path depends on the token
through the fingerprint of the route alone, if and only if the route starts with the name
of the resource, or a scheme behind the token takes its place, or the buffer is full in
front of the token. -/
theorem route_key_hides_iff (p : SecretPath) (method : Bytes) (outSize : Nat) :
    p.Hides method outSize ↔ p.Opaque ∨ p.Redirected ∨ p.Filled method outSize := by
  constructor
  · intro hhides
    obtain ⟨key, hkey⟩ := hhides
    by_contra hnone
    rw [not_or, not_or] at hnone
    obtain ⟨hopen, hhere, hroom⟩ := hnone
    rw [SecretPath.Filled, Nat.not_le] at hroom
    have htoken : ∀ c : UInt8, c = 0x61 ∨ c = 0x62 → IsToken [c] := by
      intro c hc
      obtain rfl | rfl := hc
      · exact isToken_of_all (by decide) (by decide)
      · exact isToken_of_all (by decide) (by decide)
    have hletter : ∀ c : UInt8, c = 0x61 ∨ c = 0x62 →
        (routeKey (fun _ => none) method (p.path [c]) outSize)[(method ++
          0x20 :: (keyText .start p.shown ++ [chSlash])).length]? = some c := by
      intro c hc
      have hdigits : routeSpanIsDigits [c] = false := by
        obtain rfl | rfl := hc
        · decide
        · decide
      obtain ⟨rest, hrest⟩ := SecretPath.routeKey_path (htoken c hc) hhere hopen
      rw [hrest, SecretPath.routeSegment_of_letter hdigits, List.getElem?_take_of_lt (by omega),
        List.getElem?_append_right (Nat.le_refl _), Nat.sub_self]
      rfl
    have hfirst := hletter 0x61 (.inl rfl)
    have hsecond := hletter 0x62 (.inr rfl)
    rw [hkey _ _ (htoken _ (.inl rfl))] at hfirst
    rw [hkey _ _ (htoken _ (.inr rfl)), hfirst] at hsecond
    exact absurd hsecond (by decide)
  · intro hcases
    by_cases hgone : p.Redirected
    · exact SecretPath.hides_of_redirected hgone
    by_cases hopaque : p.Opaque
    · exact SecretPath.hides_of_opaque hgone hopaque
    · exact SecretPath.hides_of_filled hgone hopaque ((hcases.resolve_left hopaque).resolve_left hgone)

/-- The URL of a webhook below the prefix of the API: `https://h/api/webhooks/1/`, with a
token behind it. -/
def webhookUrl : SecretPath where
  front :=
    [0x68, 0x74, 0x74, 0x70, 0x73, 0x3a, 0x2f, 0x2f, 0x68, 0x2f, 0x61, 0x70, 0x69, 0x2f]
  webhook := true
  id := [0x31]
  post := []
  edge := .inr ⟨[0x68, 0x74, 0x74, 0x70, 0x73, 0x3a, 0x2f, 0x2f, 0x68, 0x2f, 0x61, 0x70, 0x69], rfl⟩
  noQuery := by decide
  rooted := by
    intro rest hrest
    have hscheme : afterScheme
        [0x68, 0x74, 0x74, 0x70, 0x73, 0x3a, 0x2f, 0x2f, 0x68, 0x2f, 0x61, 0x70, 0x69, 0x2f] =
        some [0x68, 0x2f, 0x61, 0x70, 0x69, 0x2f] := by decide +kernel
    rw [hscheme] at hrest
    rw [← Option.some.inj hrest]
    decide
  digits := by decide
  ends := .inl rfl

/-- The key of such a URL does not depend on the fingerprint at all, but on the token. -/
theorem webhook_token_in_key :
    ¬ ∀ (p : SecretPath) (method : Bytes) (outSize : Nat), p.Hides method outSize := by
  intro hall
  obtain ⟨key, hkey⟩ := hall webhookUrl [0x47] 160
  have hfirst := hkey (fun _ => none) [0x61] (isToken_of_all (by decide) (by decide))
  have hsecond := hkey (fun _ => none) [0x62] (isToken_of_all (by decide) (by decide))
  rw [← hsecond] at hfirst
  revert hfirst
  decide +kernel

end Dcc.Rest
