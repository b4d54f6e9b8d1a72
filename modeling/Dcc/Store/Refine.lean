import Dcc.Store.File
import Dcc.Lib.Lines
import Mathlib.Data.List.Flatten
import Mathlib.Logic.Function.Basic

/-!
# The file key-value store is a map

A store file stands for a map: the first line of a key gives its value
(`meaning`).  The three calls cut the file into lines by loops of their own; all
of them see the lines of `Lines.lines`.

* `getLoop_eq`, `copyLoop_eq`: the loops, by the lines of the file;
* `meaning_setText`, `meaning_deleteText`: what the rewritten file stands for;
* `setText_length_le`: the output fits the buffer that was computed for it;
* `store_refines_map`: over all runs, from any file, the store is the map that
  its successful calls describe.
-/

namespace Dcc.Store

open Lines Decimal

/-! ## What a file stands for -/

/-- What a line says, if it says anything: a key and a value. -/
def entry (line : Bytes) : Option (Bytes × Bytes) :=
  match (lineContent line).dropWhile (· ≠ chEquals) with
  | [] => none
  | _ :: value => some ((lineContent line).takeWhile (· ≠ chEquals), value)

/-- The value of a key: that of its first line. -/
def meaning (file : Option Bytes) (key : Bytes) : Option Bytes :=
  ((contents chNewline (file.getD [])).filterMap entry).lookup key

theorem lineMatches_eq (line key : Bytes) :
    lineMatches line key = (entry line).bind fun e => if key == e.1 then some e.2 else none := by
  rw [lineMatches, entry]
  generalize lineContent line = text
  have hsplit := @List.takeWhile_append_dropWhile _ (· ≠ chEquals) text
  generalize text.takeWhile (· ≠ chEquals) = name at hsplit
  cases hrest : text.dropWhile (· ≠ chEquals) with
  | nil =>
    rw [hrest, List.append_nil] at hsplit
    rw [hsplit, if_pos (Or.inl rfl)]
    rfl
  | cons c value =>
    rw [hrest] at hsplit
    subst hsplit
    have hdrop : (name ++ c :: value).drop (name.length + 1) = value := by simp
    rw [Option.bind_some, hdrop]
    by_cases hkey : name = key
    · rw [if_neg (by simp [hkey]), if_pos (by simp [hkey])]
    · rw [if_pos (Or.inr hkey), if_neg (by simpa using Ne.symm hkey)]

theorem findSome_eq_lookup (ls : List Bytes) (key : Bytes) :
    ls.findSome? (lineMatches · key) = (ls.filterMap entry).lookup key := by
  induction ls with
  | nil => rfl
  | cons l ls ih =>
    rw [List.findSome?_cons, lineMatches_eq]
    cases hentry : entry l with
    | none => rw [List.filterMap_cons_none hentry, Option.bind_none, ih]
    | some e =>
      rw [List.filterMap_cons_some hentry, Option.bind_some, List.lookup_cons]
      cases hkey : key == e.1 with
      | false => simpa using ih
      | true => rfl

/-! ## The loops -/

theorem behind_line_length_le {c : UInt8} {p : Bytes} {fuel : Nat}
    (hlen : (c :: p).length ≤ fuel + 1) :
    (((c :: p).dropWhile (· ≠ chNewline)).drop 1).length ≤ fuel := by
  have hle := (List.dropWhile_suffix (l := c :: p) (· ≠ chNewline)).length_le
  rw [List.length_drop]
  rw [List.length_cons] at hlen hle
  omega

theorem getLoop_eq (key : Bytes) :
    ∀ {fuel : Nat} {data : Bytes}, data.length ≤ fuel →
      getLoop key fuel data = (contents chNewline data).findSome? (lineMatches · key) := by
  intro fuel
  induction fuel with
  | zero =>
    intro data hlen
    rw [List.length_eq_zero_iff.mp (Nat.le_zero.mp hlen)]
    rfl
  | succ fuel ih =>
    intro data hlen
    cases data with
    | nil => rfl
    | cons c p =>
      have hrest := behind_line_length_le hlen
      rw [contents, lines_eq_cons (List.cons_ne_nil c p), List.map_cons, content_first,
        List.findSome?_cons, ← contents, ← ih hrest, getLoop]
      cases hmatch : lineMatches ((c :: p).takeWhile (· ≠ chNewline)) key with
      | none => simp only [lineEnd, hmatch]
      | some value => simp only [lineEnd, hmatch]

/-- A line that is not of the key is kept. -/
def keeps (key line : Bytes) : Bool := (lineMatches line key).isNone

theorem copyLoop_eq (key : Bytes) :
    ∀ {fuel : Nat} {data out : Bytes} {found : Bool}, data.length ≤ fuel →
      copyLoop key fuel data out found =
        (out ++ ((lines chNewline data).filter fun l => keeps key (content chNewline l)).flatten,
          found || (contents chNewline data).any fun c => !keeps key c) := by
  intro fuel
  induction fuel with
  | zero =>
    intro data out found hlen
    rw [List.length_eq_zero_iff.mp (Nat.le_zero.mp hlen)]
    simp [copyLoop, contents, lines]
  | succ fuel ih =>
    intro data out found hlen
    cases data with
    | nil => simp [copyLoop, contents, lines]
    | cons c p =>
      have hrest := behind_line_length_le hlen
      rw [copyLoop, contents, lines_eq_cons (List.cons_ne_nil c p), List.map_cons,
        content_first, List.any_cons, ← contents]
      by_cases hmatch : (lineMatches ((c :: p).takeWhile (· ≠ chNewline)) key).isSome = true
      · have hkeep : keeps key ((c :: p).takeWhile (· ≠ chNewline)) = false := by
          simpa [keeps] using hmatch
        rw [List.filter_cons_of_neg (by rw [content_first, hkeep]; simp)]
        simp only [lineEnd, if_pos hmatch, ih hrest, hkeep]
        simp
      · have hkeep : keeps key ((c :: p).takeWhile (· ≠ chNewline)) = true := by
          simpa [keeps] using hmatch
        rw [List.filter_cons_of_pos (by rw [content_first, hkeep])]
        simp only [lineEnd, if_neg hmatch, ih hrest, hkeep, List.flatten_cons, List.append_assoc]
        simp

/-! ## The rewritten files -/

theorem lines_kept (data key : Bytes) :
    Cut chNewline ((lines chNewline data).filter fun l => keeps key (content chNewline l)) :=
  (cut_lines data).filter _

theorem contents_kept (data key : Bytes) :
    ((lines chNewline data).filter fun l => keeps key (content chNewline l)).map
        (content chNewline) = (contents chNewline data).filter (keeps key) := by
  rw [contents, List.filter_map]
  rfl

theorem contents_deleteText (data : Bytes) (key : CString) :
    contents chNewline (deleteText data key).1 =
      (contents chNewline data).filter (keeps key.bytes) := by
  rw [deleteText, copyLoop_eq key.bytes (Nat.le_refl _), List.nil_append]
  rw [contents, lines_of_cut (lines_kept data key.bytes), contents_kept]

/-- The line that `set` writes. -/
def newLine (key value : CString) : Bytes := key.bytes ++ chEquals :: value.bytes

theorem not_mem_of_keyValid {key : CString} (h : keyValid key = true) :
    key.bytes ≠ [] ∧ chEquals ∉ key.bytes ∧ chNewline ∉ key.bytes ∧ chReturn ∉ key.bytes := by
  simpa [keyValid, textHasNewline, and_assoc] using h

theorem not_mem_of_valueValid {value : CString} (h : valueValid value = true) :
    chNewline ∉ value.bytes ∧ chReturn ∉ value.bytes := by
  simpa [valueValid, textHasNewline] using h

variable {key value : CString}

theorem contents_setText (data : Bytes) (hkey : keyValid key = true)
    (hvalue : valueValid value = true) :
    contents chNewline (setText data key value) =
      (contents chNewline data).filter (keeps key.bytes) ++ [newLine key value] := by
  obtain ⟨-, -, hkeyLine, -⟩ := not_mem_of_keyValid hkey
  obtain ⟨hvalueLine, -⟩ := not_mem_of_valueValid hvalue
  have hopen : chNewline ∉ newLine key value := by
    intro hmem
    rcases List.mem_append.mp hmem with h | h
    · exact hkeyLine h
    · rcases List.mem_cons.mp h with h | h
      · exact absurd h (by decide)
      · exact hvalueLine h
  have hline : contents chNewline (newLine key value ++ [chNewline]) = [newLine key value] := by
    have hcut := @lines_terminated_append _ _ chNewline _ ⟨_, hopen, rfl⟩ []
    rw [List.append_nil] at hcut
    rw [contents, hcut, List.map_cons, content_of_terminated]
    rfl
  have hclosed := contents_closed (lines_kept data key.bytes) (newLine key value ++ [chNewline])
  rw [hline, contents_kept] at hclosed
  rw [← hclosed, setText, copyLoop_eq key.bytes (Nat.le_refl _)]
  simp only [List.nil_append, newLine, List.append_assoc, List.cons_append]
  split
  · simp only [List.append_assoc, List.cons_append, List.nil_append]
  · simp only [List.nil_append]

theorem entry_newLine (hkey : keyValid key = true) (hvalue : valueValid value = true) :
    entry (newLine key value) = some (key.bytes, value.bytes) := by
  obtain ⟨-, heq, -, -⟩ := not_mem_of_keyValid hkey
  obtain ⟨-, hreturn⟩ := not_mem_of_valueValid hvalue
  have hcontent : lineContent (newLine key value) = newLine key value := by
    rw [lineContent, if_neg]
    intro hlast
    have htail : (newLine key value).getLast? = (chEquals :: value.bytes).getLast? :=
      List.getLast?_append_of_ne_nil _ (List.cons_ne_nil _ _)
    rw [htail] at hlast
    rcases List.mem_cons.mp (List.mem_of_getLast? hlast) with h | h
    · exact absurd h (by decide)
    · exact hreturn h
  have hrun : ∀ c ∈ key.bytes, (decide (c ≠ chEquals)) = true := by
    intro c hc
    simpa using fun h : c = chEquals => heq (h ▸ hc)
  have hdrop : (newLine key value).dropWhile (· ≠ chEquals) = chEquals :: value.bytes := by
    rw [newLine, List.dropWhile_append_of_pos hrun, List.dropWhile_cons_of_neg (by simp)]
  have htake : (newLine key value).takeWhile (· ≠ chEquals) = key.bytes := by
    rw [newLine, List.takeWhile_append_of_pos hrun, List.takeWhile_cons_of_neg (by simp),
      List.append_nil]
  rw [entry, hcontent, hdrop, htake]

theorem lookup_kept (ls : List Bytes) (key other : Bytes) :
    ((ls.filter (keeps key)).filterMap entry).lookup other =
      if other = key then none else (ls.filterMap entry).lookup other := by
  induction ls with
  | nil => simp
  | cons l ls ih =>
    have hkeeps : keeps key l = true ↔ ∀ e ∈ entry l, key ≠ e.1 := by
      rw [keeps, lineMatches_eq]
      cases entry l with
      | none => simp
      | some e =>
        by_cases h : key = e.1 <;> simp [h]
    cases hentry : entry l with
    | none =>
      rw [hentry] at hkeeps
      rw [List.filter_cons_of_pos (hkeeps.mpr (by simp)), List.filterMap_cons_none hentry,
        List.filterMap_cons_none hentry, ih]
    | some e =>
      rw [hentry] at hkeeps
      by_cases hkey : key = e.1
      · have hdrop : ¬ keeps key l = true := fun h => hkeeps.mp h e rfl hkey
        rw [List.filter_cons_of_neg hdrop, ih, List.filterMap_cons_some hentry, List.lookup_cons]
        by_cases hother : other = key
        · rw [if_pos hother, if_pos hother]
        · have hne : (other == e.1) = false := by simpa [← hkey] using hother
          rw [if_neg hother, if_neg hother, hne]
      · have hkeep : keeps key l = true := by
          apply hkeeps.mpr
          intro e' he'
          cases he'
          exact hkey
        rw [List.filter_cons_of_pos hkeep, List.filterMap_cons_some hentry,
          List.filterMap_cons_some hentry, List.lookup_cons, List.lookup_cons]
        cases hsame : other == e.1 with
        | false => simpa using ih
        | true =>
          have hother : other ≠ key := by
            intro h
            exact hkey (h.symm.trans (by simpa using hsame))
          simp [hother]

/-- **The file that `set` writes stands for the map with the key set.** -/
theorem meaning_setText (file : Option Bytes) (hkey : keyValid key = true)
    (hvalue : valueValid value = true) :
    meaning (some (setText (file.getD []) key value)) =
      Function.update (meaning file) key.bytes (some value.bytes) := by
  funext other
  have hone : List.filterMap entry [newLine key value] = [(key.bytes, value.bytes)] := by
    rw [List.filterMap_cons_some (entry_newLine hkey hvalue)]
    rfl
  rw [meaning, Option.getD_some, contents_setText _ hkey hvalue, List.filterMap_append,
    List.lookup_append, lookup_kept, hone]
  by_cases hother : other = key.bytes
  · subst hother
    simp
  · have hne : (other == key.bytes) = false := by simpa using hother
    rw [if_neg hother, Function.update_of_ne hother, List.lookup_cons, hne, meaning]
    simp

/-- **The file that `delete` writes stands for the map without the key.** -/
theorem meaning_deleteText (file : Option Bytes) (key : CString) :
    meaning (some (deleteText (file.getD []) key).1) =
      Function.update (meaning file) key.bytes none := by
  funext other
  rw [meaning, Option.getD_some, contents_deleteText, lookup_kept]
  by_cases hother : other = key.bytes
  · subst hother
    simp
  · rw [if_neg hother, Function.update_of_ne hother, meaning]

theorem deleteText_found (file : Option Bytes) (key : CString) :
    (deleteText (file.getD []) key).2 = (meaning file key.bytes).isSome := by
  have hfound : (deleteText (file.getD []) key).2 =
      (contents chNewline (file.getD [])).any fun c => !keeps key.bytes c := by
    rw [deleteText, copyLoop_eq key.bytes (Nat.le_refl _), Bool.false_or]
  rw [hfound, meaning, ← findSome_eq_lookup]
  generalize contents chNewline (file.getD []) = ls
  induction ls with
  | nil => rfl
  | cons l ls ih =>
    rw [List.any_cons, List.findSome?_cons, ih]
    cases hmatch : lineMatches l key.bytes with
    | none => simp [keeps, hmatch]
    | some value => simp [keeps, hmatch]

/-! ## The output buffers -/

theorem copyLoop_length_le (key data : Bytes) :
    (copyLoop key data.length data [] false).1.length ≤ data.length := by
  have hcopy : (copyLoop key data.length data [] false).1 =
      ((lines chNewline data).filter fun l => keeps key (content chNewline l)).flatten := by
    rw [copyLoop_eq key (Nat.le_refl _), List.nil_append]
  have hsub := (List.filter_sublist (l := lines chNewline data)
    (p := fun l => keeps key (content chNewline l))).flatten
  rw [lines_flatten] at hsub
  rw [hcopy]
  exact hsub.length_le

theorem setCapacity_eq {data : Bytes} (h : setTooLarge data key value = false) :
    setCapacity data key value = data.length + key.bytes.length + value.bytes.length + 3 := by
  have hkey := key.fits
  have hvalue := value.fits
  have hsize : wordSize = 2 ^ 64 := rfl
  have hmax : wordMax = 2 ^ 64 - 1 := rfl
  have hone : wordSub wordMax key.bytes.length = wordMax - key.bytes.length :=
    wordSub_of_le (by omega) (by omega)
  have htwo : wordSub (wordMax - key.bytes.length) value.bytes.length =
      wordMax - key.bytes.length - value.bytes.length := wordSub_of_le (by omega) (by omega)
  have hthree : wordSub (wordMax - key.bytes.length - value.bytes.length) 3 =
      wordMax - key.bytes.length - value.bytes.length - 3 := wordSub_of_le (by omega) (by omega)
  rw [setTooLarge, decide_eq_false_iff_not, Nat.not_lt, hone, htwo, hthree] at h
  have hsum : data.length + key.bytes.length + value.bytes.length + 3 < wordSize := by omega
  rw [setCapacity, wordAdd_of_lt (show data.length + key.bytes.length < wordSize by omega),
    wordAdd_of_lt (show _ + value.bytes.length < wordSize by omega), wordAdd_of_lt hsum]

/-- **What `set` writes fits its buffer.** -/
theorem setText_length_le {data : Bytes} (h : setTooLarge data key value = false) :
    (setText data key value).length ≤ setCapacity data key value := by
  have hcopy := copyLoop_length_le key.bytes data
  rw [setCapacity_eq h, setText, List.length_append, List.length_append, List.length_cons,
    List.length_append, List.length_singleton]
  split
  · rw [List.length_append, List.length_singleton]
    omega
  · omega

/-! ## One call -/

/-- The file can be read: nothing fails, and its length is one `ftell` reports. -/
def Readable (env : Env) (file : Option Bytes) : Prop :=
  env.read = none ∧ (file.getD []).length < 2 ^ 63

theorem Fault.status_ne (fault : Fault) : fault.status ≠ .ok ∧ fault.status ≠ .notFound := by
  cases fault <;> decide

theorem readAll_cases (env : Env) (file : Option Bytes) :
    (∃ status, readAll env file = .error status ∧ status ≠ .ok ∧ status ≠ .notFound ∧
      ¬ Readable env file) ∨
      (readAll env file = .error .notFound ∧ file = none) ∨
      ∃ data, readAll env file = .ok data ∧ file = some data := by
  unfold readAll
  cases hread : env.read with
  | some fault =>
    refine Or.inl ⟨fault.status, rfl, fault.status_ne.1, fault.status_ne.2, fun h => ?_⟩
    rw [h.1] at hread
    cases hread
  | none =>
    cases file with
    | none => exact Or.inr (Or.inl ⟨rfl, rfl⟩)
    | some data =>
      by_cases hlen : 2 ^ 63 ≤ data.length
      · refine Or.inl ⟨.runtime, if_pos hlen, by decide, by decide, fun h => ?_⟩
        exact absurd h.2 (Nat.not_lt.mpr hlen)
      · exact Or.inr (Or.inr ⟨data, if_neg hlen, rfl⟩)

theorem writeAll_cases (env : Env) (file : Option Bytes) (data : Bytes) :
    ((writeAll env file data).2 ≠ .ok ∧ (writeAll env file data).1 = file ∧ env.write ≠ none) ∨
      writeAll env file data = (some data, .ok) := by
  unfold writeAll
  cases env.write with
  | some fault => exact Or.inl ⟨fault.status_ne.1, rfl, by simp⟩
  | none => exact Or.inr rfl

/-- What a `get` reports of a value. -/
def lookupResult (value : Option Bytes) (room : Option Nat) (wantLen : Bool) : GetResult :=
  match value with
  | none => ⟨.notFound, none, none⟩
  | some value =>
    let valueLen := if wantLen then some value.length else none
    match room with
    | none => ⟨.ok, valueLen, none⟩
    | some size =>
      if size ≤ value.length then ⟨.state, valueLen, none⟩ else ⟨.ok, valueLen, some value⟩

variable {env : Env} {file : Option Bytes}

/-- **A `get` reports what the file stands for.** -/
theorem storeGet_eq {key : CString} {room : Option Nat}
    {wantLen : Bool} (hkey : keyValid key = true) (hread : Readable env file)
    (hout : room ≠ none ∨ wantLen = true) :
    storeGet env file key room wantLen = lookupResult (meaning file key.bytes) room wantLen := by
  have hargs : ¬ (room = none ∧ wantLen = false) := by
    rintro ⟨hroom, hlen⟩
    rcases hout with h | h
    · exact h hroom
    · rw [hlen] at h
      cases h
  rw [storeGet, if_neg (by simp [hkey]), if_neg hargs, fileGet]
  rcases readAll_cases env file with ⟨_, _, _, _, hnot⟩ | ⟨hfile, rfl⟩ | ⟨data, hfile, rfl⟩
  · exact absurd hread hnot
  · rw [hfile]
    rfl
  · rw [hfile, meaning, ← findSome_eq_lookup, Option.getD_some]
    simp only [getLoop_eq key.bytes (Nat.le_refl _)]
    cases (contents chNewline data).findSome? (lineMatches · key.bytes) with
    | none => rfl
    | some value => rfl

theorem setData_cases (env : Env) (file : Option Bytes) (key value : CString) (data : Bytes) :
    ((setData env file key value data).2 ≠ .ok ∧ (setData env file key value data).1 = file ∧
      (setTooLarge data key value = true ∨ env.alloc = false ∨ env.write ≠ none)) ∨
      setData env file key value data = (some (setText data key value), .ok) := by
  unfold setData
  split
  · next hlarge => exact Or.inl ⟨by simp, rfl, Or.inl hlarge⟩
  split
  · next halloc => exact Or.inl ⟨by simp, rfl, Or.inr (Or.inl halloc)⟩
  rcases writeAll_cases env file (setText data key value) with ⟨hstatus, hfile, hwrite⟩ | hok
  · exact Or.inl ⟨hstatus, hfile, Or.inr (Or.inr hwrite)⟩
  · exact Or.inr hok

/-- **What a `set` does.**  It leaves the file and fails, for a reason in its
arguments, the file's size or the surroundings, or it writes. -/
theorem storeSet_cases (env : Env) (file : Option Bytes) (key value : CString) :
    ((storeSet env file key value).2 ≠ .ok ∧ (storeSet env file key value).1 = file ∧
      (keyValid key = false ∨ valueValid value = false ∨ ¬ Readable env file ∨
        setTooLarge (file.getD []) key value = true ∨ env.alloc = false ∨ env.write ≠ none)) ∨
      (keyValid key = true ∧ valueValid value = true ∧
        storeSet env file key value = (some (setText (file.getD []) key value), .ok)) := by
  rw [storeSet]
  split
  · next hargs =>
    refine Or.inl ⟨by simp, rfl, ?_⟩
    rcases hargs with h | h
    · exact Or.inl h
    · exact Or.inr (Or.inl h)
  next hargs =>
  obtain ⟨hkey, hvalue⟩ := not_or.mp hargs
  rw [Bool.not_eq_false] at hkey hvalue
  rw [fileSet]
  rcases readAll_cases env file with ⟨status, hfile, hok, hfound, hnot⟩ | ⟨hfile, hnone⟩ |
    ⟨data, hfile, hsome⟩
  · simp only [hfile, if_neg hfound]
    exact Or.inl ⟨hok, trivial, Or.inr (Or.inr (Or.inl hnot))⟩
  · simp only [hfile, if_true]
    rw [hnone, Option.getD_none]
    rcases setData_cases env none key value [] with ⟨hstatus, hsame, hreason⟩ | hdone
    · exact Or.inl ⟨hstatus, hsame, Or.inr (Or.inr (Or.inr hreason))⟩
    · exact Or.inr ⟨hkey, hvalue, hdone⟩
  · simp only [hfile]
    rw [hsome, Option.getD_some]
    rcases setData_cases env (some data) key value data with ⟨hstatus, hsame, hreason⟩ | hdone
    · exact Or.inl ⟨hstatus, hsame, Or.inr (Or.inr (Or.inr hreason))⟩
    · exact Or.inr ⟨hkey, hvalue, hdone⟩

/-- **What a `delete` does.** -/
theorem storeDelete_cases (env : Env) (file : Option Bytes) (key : CString) :
    ((storeDelete env file key).2 ≠ .ok ∧ (storeDelete env file key).1 = file ∧
      (keyValid key = false ∨ ¬ Readable env file ∨ env.alloc = false ∨ env.write ≠ none ∨
        ((storeDelete env file key).2 = .notFound ∧ meaning file key.bytes = none))) ∨
      (keyValid key = true ∧ (meaning file key.bytes).isSome = true ∧
        storeDelete env file key = (some (deleteText (file.getD []) key).1, .ok)) := by
  rw [storeDelete]
  split
  · next hkey => exact Or.inl ⟨by simp, rfl, Or.inl hkey⟩
  next hkey =>
  rw [Bool.not_eq_false] at hkey
  rw [fileDelete]
  rcases readAll_cases env file with ⟨status, hfile, hok, -, hnot⟩ | ⟨hfile, rfl⟩ |
    ⟨data, hfile, rfl⟩
  · rw [hfile]
    exact Or.inl ⟨hok, rfl, Or.inr (Or.inl hnot)⟩
  · rw [hfile]
    exact Or.inl ⟨by simp, rfl, Or.inr (Or.inr (Or.inr (Or.inr ⟨rfl, rfl⟩)))⟩
  · have hfound := deleteText_found (some data) key
    rw [Option.getD_some] at hfound
    rw [hfile, Option.getD_some]
    simp only
    split
    · next halloc => exact Or.inl ⟨by simp, rfl, Or.inr (Or.inr (Or.inl halloc))⟩
    split
    · next hmiss =>
      rw [hfound, Option.isSome_eq_false_iff, Option.isNone_iff_eq_none] at hmiss
      exact Or.inl ⟨by simp, rfl, Or.inr (Or.inr (Or.inr (Or.inr ⟨rfl, hmiss⟩)))⟩
    · next hhit =>
      rw [Bool.not_eq_false, hfound] at hhit
      rcases writeAll_cases env (some data) (deleteText data key).1 with
        ⟨hstatus, hsame, hwrite⟩ | hdone
      · exact Or.inl ⟨hstatus, hsame, Or.inr (Or.inr (Or.inr (Or.inl hwrite)))⟩
      · exact Or.inr ⟨hkey, hhit, hdone⟩

/-! ## Integers and message references -/

theorem takeWhile_noNul {bytes : Bytes} (h : 0 ∉ bytes) : bytes.takeWhile (· ≠ 0) = bytes := by
  rw [List.takeWhile_eq_self_iff]
  intro c hc
  simpa using fun hzero : c = 0 => h (hzero ▸ hc)

theorem u64_le_wordMax (n : UInt64) : n.toNat ≤ wordMax := Nat.le_sub_one_of_lt n.toNat_lt

theorem getU64_eq {key : CString} {n : UInt64}
    (hkey : keyValid key = true) (hread : Readable env file)
    (hvalue : meaning file key.bytes = some (u64Text n).bytes) :
    getU64 env file key = .ok n.toNat := by
  have hlen : (u64Text n).bytes.length ≤ 20 := length_decimalText_u64 n
  have hget : storeGet env file key (some 32) true =
      ⟨.ok, some (u64Text n).bytes.length, some (u64Text n).bytes⟩ := by
    rw [storeGet_eq hkey hread (Or.inr rfl), hvalue]
    simp only [lookupResult, if_true]
    rw [if_neg (by omega)]
  have hparse : parseU64 (u64Text n).bytes = .ok n.toNat := by
    rw [parseU64, takeWhile_noNul (u64Text n).noNul]
    simp only [u64Text, readDecimal_decimalText (u64_le_wordMax n)]
  simp only [getU64, hget, hparse, if_neg (show ¬ 32 ≤ (u64Text n).bytes.length by omega)]

theorem colon_not_digit (n : Nat) : chColon ∉ decimalText n := by
  intro hmem
  have hdigit := digit_of_mem hmem
  exact absurd hdigit.2 (by decide)

theorem loadManagedMessageRef_eq {key : CString}
    {ref : MessageRef} (hkey : keyValid key = true) (hread : Readable env file)
    (hvalue : meaning file key.bytes = some (refText ref).bytes) :
    loadManagedMessageRef env file key = .ok (ref.channelId.toNat, ref.messageId.toNat) := by
  have hchannel := length_decimalText_u64 ref.channelId
  have hmessage := length_decimalText_u64 ref.messageId
  have hbytes : (refText ref).bytes =
      decimalText ref.channelId.toNat ++ chColon :: decimalText ref.messageId.toNat := rfl
  have hlen : (refText ref).bytes.length ≤ 41 := by
    rw [hbytes, List.length_append, List.length_cons]
    omega
  have hget : storeGet env file key (some 64) true =
      ⟨.ok, some (refText ref).bytes.length, some (refText ref).bytes⟩ := by
    rw [storeGet_eq hkey hread (Or.inr rfl), hvalue]
    simp only [lookupResult, if_true]
    rw [if_neg (by omega)]
  have htake : (refText ref).bytes.takeWhile (· ≠ chColon) = decimalText ref.channelId.toNat := by
    have hrun : ∀ c ∈ decimalText ref.channelId.toNat, decide (c ≠ chColon) = true := by
      intro c hc
      simpa using fun h : c = chColon => colon_not_digit _ (h ▸ hc)
    rw [hbytes, List.takeWhile_append_of_pos hrun, List.takeWhile_cons_of_neg (by simp),
      List.append_nil]
  have hdrop : (refText ref).bytes.drop ((decimalText ref.channelId.toNat).length + 1) =
      decimalText ref.messageId.toNat := by
    rw [hbytes]
    simp
  have hcolon : ¬ (decimalText ref.channelId.toNat).length = (refText ref).bytes.length := by
    rw [hbytes, List.length_append, List.length_cons]
    omega
  simp only [loadManagedMessageRef, hget, if_neg (show ¬ 64 ≤ (refText ref).bytes.length by omega),
    takeWhile_noNul (refText ref).noNul, htake, if_neg hcolon, hdrop,
    readDecimal_decimalText (u64_le_wordMax _)]

theorem setU64_eq (env : Env) (file : Option Bytes) (key : CString) (n : UInt64) :
    setU64 env file key n = storeSet env file key (u64Text n) := by
  have hlen : (u64Text n).bytes.length ≤ 20 := length_decimalText_u64 n
  have hpos : 0 < (u64Text n).bytes.length := List.length_pos_iff.mpr (decimalText_ne_nil _)
  have hgood : ¬ ((u64Text n).bytes.length = 0 ∨ 32 ≤ (u64Text n).bytes.length) := by omega
  simp only [setU64, if_neg hgood]

theorem saveManagedMessageRef_eq (env : Env) (file : Option Bytes) (key : CString)
    (ref : MessageRef) :
    saveManagedMessageRef env file key ref = storeSet env file key (refText ref) := by
  have hchannel := length_decimalText_u64 ref.channelId
  have hmessage := length_decimalText_u64 ref.messageId
  have hlen : (refText ref).bytes.length = (decimalText ref.channelId.toNat).length +
      ((decimalText ref.messageId.toNat).length + 1) := by
    simp [refText]
  have hgood : ¬ ((refText ref).bytes.length = 0 ∨ 64 ≤ (refText ref).bytes.length) := by omega
  simp only [saveManagedMessageRef, if_neg hgood]

/-! ## Runs -/

/-- A call of the store. -/
inductive Call
  | get (key : CString) (room : Option Nat) (wantLen : Bool)
  | getU64 (key : CString)
  | loadRef (key : CString)
  | set (key value : CString)
  | setU64 (key : CString) (value : UInt64)
  | saveRef (key : CString) (ref : MessageRef)
  | delete (key : CString)

/-- The status that a call which reads comes back with. -/
def outcome {α : Type} : Except Status α → Status
  | .ok _ => .ok
  | .error status => status

/-- The file after a call, and its status. -/
def Call.run (env : Env) (file : Option Bytes) : Call → Option Bytes × Status
  | .get key room wantLen => (file, (storeGet env file key room wantLen).status)
  | .getU64 key => (file, outcome (Store.getU64 env file key))
  | .loadRef key => (file, outcome (loadManagedMessageRef env file key))
  | .set key value => storeSet env file key value
  | .setU64 key value => Store.setU64 env file key value
  | .saveRef key ref => saveManagedMessageRef env file key ref
  | .delete key => storeDelete env file key

/-- What a call that succeeds means for the map. -/
def Call.effect (map : Bytes → Option Bytes) : Call → Bytes → Option Bytes
  | .set key value => Function.update map key.bytes (some value.bytes)
  | .setU64 key value => Function.update map key.bytes (some (u64Text value).bytes)
  | .saveRef key ref => Function.update map key.bytes (some (refText ref).bytes)
  | .delete key => Function.update map key.bytes none
  | _ => map

/-- A store, and beside it the map that its successful calls describe. -/
structure Observed where
  file : Option Bytes
  map : Bytes → Option Bytes

def next (s : Observed) (c : Call × Env) : Observed :=
  let result := c.1.run c.2 s.file
  ⟨result.1, if result.2 = .ok then c.1.effect s.map else s.map⟩

theorem run_meaning (env : Env) (file : Option Bytes) (call : Call) :
    ((call.run env file).2 ≠ .ok → (call.run env file).1 = file) ∧ ((call.run env file).2 = .ok →
        meaning (call.run env file).1 = call.effect (meaning file)) := by
  have hset : ∀ key value, ((storeSet env file key value).2 ≠ .ok →
      (storeSet env file key value).1 = file) ∧
      ((storeSet env file key value).2 = .ok → meaning (storeSet env file key value).1 =
        Function.update (meaning file) key.bytes (some value.bytes)) := by
    intro key value
    rcases storeSet_cases env file key value with ⟨hstatus, hsame, -⟩ | ⟨hkey, hvalue, hdone⟩
    · exact ⟨fun _ => hsame, fun h => absurd h hstatus⟩
    · rw [hdone]
      exact ⟨fun h => absurd rfl h, fun _ => meaning_setText file hkey hvalue⟩
  cases call with
  | get key room wantLen => exact ⟨fun _ => rfl, fun _ => rfl⟩
  | getU64 key => exact ⟨fun _ => rfl, fun _ => rfl⟩
  | loadRef key => exact ⟨fun _ => rfl, fun _ => rfl⟩
  | set key value => exact hset key value
  | setU64 key value =>
    simp only [Call.run, Call.effect, setU64_eq]
    exact hset key (u64Text value)
  | saveRef key ref =>
    simp only [Call.run, Call.effect, saveManagedMessageRef_eq]
    exact hset key (refText ref)
  | delete key =>
    simp only [Call.run, Call.effect]
    rcases storeDelete_cases env file key with ⟨hstatus, hsame, -⟩ | ⟨-, -, hdone⟩
    · exact ⟨fun _ => hsame, fun h => absurd h hstatus⟩
    · rw [hdone]
      exact ⟨fun h => absurd rfl h, fun _ => meaning_deleteText file key⟩

theorem meaning_next {s : Observed} (h : meaning s.file = s.map) (c : Call × Env) :
    meaning (next s c).file = (next s c).map := by
  obtain ⟨hfail, hdone⟩ := run_meaning c.2 s.file c.1
  unfold next
  by_cases hstatus : (c.1.run c.2 s.file).2 = .ok
  · simp only [if_pos hstatus, hdone hstatus, h]
  · simp only [if_neg hstatus, hfail hstatus, h]

theorem meaning_run {s : Observed} (h : meaning s.file = s.map) (calls : List (Call × Env)) :
    meaning (calls.foldl next s).file = (calls.foldl next s).map := by
  induction calls generalizing s with
  | nil => exact h
  | cons c calls ih => exact ih (meaning_next h c)

/-- **The file store is a map.**  From any file and after any calls, whatever
fails among them:

* the file stands for the map that the successful calls describe;
* a `get` of an accepted key reports the map's value;
* a call that fails leaves the file, and where nothing fails a `set` of an
  accepted key and value succeeds and a `delete` succeeds exactly on a key the
  map has;
* what `set` and `delete` write fits the buffer they allocate;
* integers and message references are read back as they were written. -/
theorem store_refines_map (file : Option Bytes) (calls : List (Call × Env)) :
    let s := calls.foldl next ⟨file, meaning file⟩
    meaning s.file = s.map ∧
    (∀ env key room wantLen, keyValid key = true → Readable env s.file →
      room ≠ none ∨ wantLen = true →
      storeGet env s.file key room wantLen = lookupResult (s.map key.bytes) room wantLen) ∧
    (∀ env (call : Call), ((call.run env s.file).2 ≠ .ok → (call.run env s.file).1 = s.file) ∧
      ((call.run env s.file).2 = .ok → meaning (call.run env s.file).1 = call.effect s.map)) ∧
    (∀ env key value, keyValid key = true → valueValid value = true → Readable env s.file →
      setTooLarge (s.file.getD []) key value = false → env.alloc = true → env.write = none →
      (storeSet env s.file key value).2 = .ok) ∧
    (∀ env key, keyValid key = true → Readable env s.file → env.alloc = true → env.write = none →
      (storeDelete env s.file key).2 = if (s.map key.bytes).isSome then .ok else .notFound) ∧
    (∀ data key value, setTooLarge data key value = false →
      (setText data key value).length ≤ setCapacity data key value) ∧
    (∀ data key, (deleteText data key).1.length ≤ data.length + 1) ∧
    (∀ env key n, keyValid key = true → Readable env s.file →
      s.map key.bytes = some (u64Text n).bytes → getU64 env s.file key = .ok n.toNat) ∧
    (∀ env key ref, keyValid key = true → Readable env s.file →
      s.map key.bytes = some (refText ref).bytes →
      loadManagedMessageRef env s.file key = .ok (ref.channelId.toNat, ref.messageId.toNat)) := by
  intro s
  have hmap : meaning s.file = s.map := meaning_run rfl calls
  refine ⟨hmap, ?_, ?_, ?_, ?_, ?_, ?_, ?_, ?_⟩
  · intro env key room wantLen hkey hread hout
    rw [storeGet_eq hkey hread hout, hmap]
  · intro env call
    rw [← hmap]
    exact run_meaning env s.file call
  · intro env key value hkey hvalue hread hlarge halloc hwrite
    rcases storeSet_cases env s.file key value with ⟨-, -, hreason⟩ | ⟨-, -, hdone⟩
    · simp [hkey, hvalue, hread, hlarge, halloc, hwrite] at hreason
    · rw [hdone]
  · intro env key hkey hread halloc hwrite
    rw [← hmap]
    rcases storeDelete_cases env s.file key with ⟨-, -, hreason⟩ | ⟨-, hsome, hdone⟩
    · simp only [hkey, hread, halloc, hwrite, not_true_eq_false, false_or, ne_eq,
        Bool.true_eq_false] at hreason
      rw [hreason.1, hreason.2]
      rfl
    · rw [hdone, if_pos hsome]
  · intro data key value hlarge
    exact setText_length_le hlarge
  · intro data key
    have hle := copyLoop_length_le key.bytes data
    rw [deleteText]
    omega
  · intro env key n hkey hread hvalue
    rw [← hmap] at hvalue
    exact getU64_eq hkey hread hvalue
  · intro env key ref hkey hread hvalue
    rw [← hmap] at hvalue
    exact loadManagedMessageRef_eq hkey hread hvalue

end Dcc.Store
