import Mathlib.Data.List.DropRight
import Mathlib.Data.List.TakeWhile
import Mathlib.Logic.Function.Basic
import Dcc.Basic
import Dcc.Lib.LineReader

/-!
# Dotenv files

`dcc_app_env_load_file` reads a file with `fgets` into 4096 bytes and takes every piece for a line
of its own.

* `lineAssignment_eq` — the body of the loop reads a line as the grammar says;
* `unquoted_append_iff` — when a value that is cut is still the whole value;
* `dotenv_faithful` — the assignments are those of the physical lines exactly when every line that
  does not fit is harmless: nothing that looks like an assignment comes after the first piece, and
  the first piece holds the whole of the assignment of the line.
-/

namespace Dcc.App.Dotenv

open Lines LineReader

/-! ## The loop -/

/-- The white space of the trimming helpers. -/
def isBlank (c : UInt8) : Bool := c == 0x20 || c == 0x09 || c == 0x0d || c == 0x0a

/-- What a string function sees of a buffer. -/
def stringText (buffer : Bytes) : Bytes := buffer.takeWhile (· != 0)

/-- `dcc_app_env_trim_left`. -/
def trimLeft (text : Bytes) : Bytes := text.dropWhile isBlank

/-- `dcc_app_env_trim_right`. -/
def trimRight (text : Bytes) : Bytes := text.rdropWhile isBlank

/-- `dcc_app_env_unquote`. -/
def unquote (value : Bytes) : Bytes :=
  let start := trimRight (trimLeft value)
  if 2 ≤ start.length ∧ ((start.head? = some 0x22 ∧ start.getLast? = some 0x22) ∨
        (start.head? = some 0x27 ∧ start.getLast? = some 0x27)) then
    start.dropLast.drop 1
  else start

/-- The word `export`. -/
def exportWord : Bytes := [0x65, 0x78, 0x70, 0x6f, 0x72, 0x74]

/-- The test for `export` and a blank after it, and what it skips. -/
def skipExport (key : Bytes) : Bytes :=
  if exportWord.isPrefixOf key ∧ (key[6]? = some 0x20 ∨ key[6]? = some 0x09) then
    trimLeft (key.drop 6)
  else key

/-- The body of the loop of `dcc_app_env_load_file`: the variable it sets, and the value. -/
def lineAssignment (line : Bytes) : Option (Bytes × Bytes) :=
  let key := trimLeft (stringText line)
  if key = [] ∨ key.head? = some 0x23 then none
  else
    let key := skipExport key
    if 0x3d ∈ key then
      let value := (key.dropWhile (· != 0x3d)).drop 1
      let key := trimRight (key.takeWhile (· != 0x3d))
      if key = [] then none else some (key, unquote value)
    else none

/-- An environment. -/
abbrev Environment := Bytes → Option Bytes

/-- `dcc_app_env_set` where there is memory for it. -/
def setenv (env : Environment) (name value : Bytes) (overwrite : Bool) : Environment :=
  if overwrite = false ∧ (env name).isSome then env else Function.update env name (some value)

/-- The assignments that were made, the environment after them, and the status. -/
structure Loaded where
  made : List (Bytes × Bytes)
  env : Environment
  status : Status

/-- The loop over what `fgets` gives; `memory` says which calls of `setenv` succeed. -/
def loadLoop (overwrite : Bool) : List Bytes → List Bool → Environment → Loaded
  | [], _, env => ⟨[], env, .ok⟩
  | line :: rest, memory, env =>
    match lineAssignment line with
    | none => loadLoop overwrite rest memory env
    | some (key, value) =>
      if memory.headD true then
        let loaded := loadLoop overwrite rest memory.tail (setenv env key value overwrite)
        { loaded with made := (key, value) :: loaded.made }
      else ⟨[], env, .runtime⟩

/-- What ends a line. -/
def newline : UInt8 := 0x0a

/-- How much `fgets` reads into `line`. -/
def lineRoom : Nat := 4095

/-- `fclose`. -/
def closeFile (closes : Bool) (loaded : Loaded) : Loaded :=
  if closes = false ∧ loaded.status = .ok then { loaded with status := .runtime } else loaded

/-- `dcc_app_env_load_file` for a path and the file that is there. -/
def loadFile (path file : Option Bytes) (overwrite : Bool) (memory : List Bool) (closes : Bool)
    (env : Environment) : Loaded :=
  match path, file with
  | some (_ :: _), some content =>
    closeFile closes (loadLoop overwrite (pieces newline lineRoom content) memory env)
  | some (_ :: _), none => ⟨[], env, .notFound⟩
  | _, _ => ⟨[], env, .invalidArg⟩

/-! ## The grammar -/

/-- A text without the blanks around it. -/
def stripped (text : Bytes) : Bytes := (text.dropWhile isBlank).rdropWhile isBlank

/-- A value without one pair of quotes around it. -/
def unquoted : Bytes → Bytes
  | [] => []
  | q :: rest =>
    if (q = 0x22 ∨ q = 0x27) ∧ rest.getLast? = some q then rest.dropLast else q :: rest

/-- The key in front of the first `=`: blank keys and comments have none. -/
def dotenvKey (before : Bytes) : Option Bytes :=
  let start := before.dropWhile isBlank
  if start.head? = some 0x23 then none
  else
    let key := stripped (skipExport start)
    if key = [] then none else some key

/-- The assignment of a line.  Its text ends at a zero byte, since neither a key nor a value of the
environment can hold one. -/
def dotenvAssignment (line : Bytes) : Option (Bytes × Bytes) :=
  let text := stringText line
  if 0x3d ∈ text then
    (dotenvKey (text.takeWhile (· != 0x3d))).map fun key =>
      (key, unquoted (stripped ((text.dropWhile (· != 0x3d)).drop 1)))
  else none

/-- Assignments made one after the other, up to the first that fails. -/
def assignAll (overwrite : Bool) : List (Bytes × Bytes) → List Bool → Environment → Loaded
  | [], _, env => ⟨[], env, .ok⟩
  | (key, value) :: rest, memory, env =>
    if memory.headD true then
      let loaded := assignAll overwrite rest memory.tail (setenv env key value overwrite)
      { loaded with made := (key, value) :: loaded.made }
    else ⟨[], env, .runtime⟩

theorem loadLoop_eq (overwrite : Bool) (parts : List Bytes) (memory : List Bool)
    (env : Environment) :
    loadLoop overwrite parts memory env =
      assignAll overwrite (parts.filterMap lineAssignment) memory env := by
  induction parts generalizing memory env with
  | nil => rfl
  | cons part rest ih =>
    rw [loadLoop, List.filterMap_cons]
    cases lineAssignment part with
    | none => exact ih memory env
    | some entry =>
      obtain ⟨key, value⟩ := entry
      simp only [assignAll, ih]

/-! ## The body of the loop -/

variable {text : Bytes}

theorem split_equals (h : 0x3d ∈ text) :
    text = text.takeWhile (· != 0x3d) ++ 0x3d :: (text.dropWhile (· != 0x3d)).drop 1 := by
  induction text with
  | nil => cases h
  | cons c rest ih =>
    by_cases hc : c = 0x3d
    · simp [hc]
    · have hrest : 0x3d ∈ rest := (List.mem_cons.mp h).resolve_left (Ne.symm hc)
      simp only [List.takeWhile_cons, List.dropWhile_cons, bne_iff_ne, ne_eq, hc,
        not_false_eq_true, if_true, List.cons_append]
      rw [← ih hrest]

theorem not_mem_takeWhile (text : Bytes) : 0x3d ∉ text.takeWhile (· != 0x3d) := by
  intro h
  simpa using List.mem_takeWhile_imp h

theorem trimLeft_append (before after : Bytes) :
    trimLeft (before ++ 0x3d :: after) = trimLeft before ++ 0x3d :: after := by
  induction before with
  | nil => rfl
  | cons c rest ih =>
    rw [trimLeft] at ih
    cases hc : isBlank c with
    | true => simp [trimLeft, hc, ih]
    | false => simp [trimLeft, hc]

theorem not_mem_trimLeft (h : 0x3d ∉ text) : 0x3d ∉ trimLeft text :=
  fun hmem => h (List.dropWhile_sublist isBlank |>.subset hmem)

theorem not_mem_skipExport (h : 0x3d ∉ text) : 0x3d ∉ skipExport text := by
  rw [skipExport]
  split
  · exact not_mem_trimLeft fun hmem => h (List.mem_of_mem_drop hmem)
  · exact h

theorem skipExport_append (before after : Bytes) :
    skipExport (before ++ 0x3d :: after) = skipExport before ++ 0x3d :: after := by
  by_cases hword : exportWord <+: before
  · obtain ⟨rest, rfl⟩ := hword
    have hleft : exportWord.isPrefixOf (exportWord ++ rest) = true := by simp
    have hright : exportWord.isPrefixOf (exportWord ++ rest ++ 0x3d :: after) = true := by
      simp [List.append_assoc]
    have hdrop : (exportWord ++ rest).drop 6 = rest := by
      rw [List.drop_append_of_le_length (by decide)]
      rfl
    have hdrop' : (exportWord ++ rest ++ 0x3d :: after).drop 6 = rest ++ 0x3d :: after := by
      rw [List.append_assoc, List.drop_append_of_le_length (by decide)]
      rfl
    rw [skipExport, skipExport, hleft, hright, hdrop, hdrop', trimLeft_append]
    cases rest with
    | nil => rfl
    | cons c rest => split <;> rename_i hc <;> simp [exportWord] at hc <;> simp [exportWord, hc]
  · have hleft : ¬ exportWord.isPrefixOf before = true := by simpa using hword
    have hright : ¬ exportWord.isPrefixOf (before ++ 0x3d :: after) = true := by
      rw [List.isPrefixOf_iff_prefix]
      intro hprefixed
      rcases Nat.lt_or_ge before.length exportWord.length with hshort | hlong
      · have hbefore : before ++ [0x3d] <+: before ++ 0x3d :: after := ⟨after, by simp⟩
        have hinside : before ++ [0x3d] <+: exportWord :=
          List.prefix_of_prefix_length_le hbefore hprefixed
            (by rw [List.length_append]; exact hshort)
        have hmem : 0x3d ∈ exportWord := hinside.subset (by simp)
        exact absurd hmem (by decide)
      · exact hword (List.prefix_of_prefix_length_le hprefixed (List.prefix_append _ _) hlong)
    rw [skipExport, skipExport, if_neg fun h => hright h.1, if_neg fun h => hleft h.1]

theorem dropWhile_trimLeft (text : Bytes) : (trimLeft text).dropWhile isBlank = trimLeft text :=
  List.dropWhile_idempotent isBlank text

theorem skipExport_trimmed (h : text.dropWhile isBlank = text) :
    (skipExport text).dropWhile isBlank = skipExport text := by
  rw [skipExport]
  split
  · exact dropWhile_trimLeft _
  · exact h

theorem unquote_eq (value : Bytes) : unquote value = unquoted (stripped value) := by
  rw [unquote, trimRight, trimLeft, stripped]
  cases (value.dropWhile isBlank).rdropWhile isBlank with
  | nil => rfl
  | cons q rest =>
    cases rest with
    | nil => simp [unquoted]
    | cons c rest =>
      simp only [unquoted, List.head?_cons, List.getLast?_cons_cons, Option.some.injEq]
      by_cases hquoted : (q = 0x22 ∨ q = 0x27) ∧ (c :: rest).getLast? = some q
      · rw [if_pos hquoted, if_pos]
        · rfl
        · obtain ⟨hq | hq, hlast⟩ := hquoted
          · exact ⟨by simp, Or.inl ⟨hq, by rw [hlast, hq]⟩⟩
          · exact ⟨by simp, Or.inr ⟨hq, by rw [hlast, hq]⟩⟩
      · rw [if_neg hquoted, if_neg]
        intro h
        rcases h.2 with ⟨hq, hlast⟩ | ⟨hq, hlast⟩
        · exact hquoted ⟨Or.inl hq, by rw [hlast, hq]⟩
        · exact hquoted ⟨Or.inr hq, by rw [hlast, hq]⟩

/-- **The body of the loop reads a line as the grammar says.** -/
theorem lineAssignment_eq (line : Bytes) : lineAssignment line = dotenvAssignment line := by
  rw [lineAssignment, dotenvAssignment]
  by_cases hmem : 0x3d ∈ stringText line
  · have hsplit := split_equals hmem
    have hbefore := not_mem_takeWhile (stringText line)
    generalize (stringText line).takeWhile (· != 0x3d) = before at hsplit hbefore ⊢
    generalize ((stringText line).dropWhile (· != 0x3d)).drop 1 = after at hsplit ⊢
    have hkey : 0x3d ∉ skipExport (trimLeft before) :=
      not_mem_skipExport (not_mem_trimLeft hbefore)
    have hother : ∀ c ∈ skipExport (trimLeft before), (c != 0x3d) = true := fun c hc =>
      bne_iff_ne.mpr fun heq => hkey (heq ▸ hc)
    have htake : (skipExport (trimLeft before) ++ 0x3d :: after).takeWhile (· != 0x3d) =
        skipExport (trimLeft before) := by
      rw [List.takeWhile_append_of_pos hother]
      simp
    have hdrop : ((skipExport (trimLeft before) ++ 0x3d :: after).dropWhile (· != 0x3d)).drop 1 =
        after := by
      rw [List.dropWhile_append_of_pos hother]
      simp
    have hhead : (trimLeft before ++ 0x3d :: after).head? = some 0x23 ↔
        (trimLeft before).head? = some 0x23 := by
      cases trimLeft before <;> simp
    have hstripped : stripped (skipExport (trimLeft before)) =
        trimRight (skipExport (trimLeft before)) := by
      rw [stripped, skipExport_trimmed (dropWhile_trimLeft before), trimRight]
    have hstart : before.dropWhile isBlank = trimLeft before := rfl
    rw [if_pos hmem, hsplit, trimLeft_append, skipExport_append, dotenvKey, hstart]
    simp only [htake, hdrop, hstripped, unquote_eq, List.append_eq_nil_iff, reduceCtorEq, and_false,
      false_or, hhead, List.mem_append, List.mem_cons, true_or, or_true, if_true]
    split
    · rfl
    · split <;> rfl
  · have hkey : 0x3d ∉ skipExport (trimLeft (stringText line)) :=
      not_mem_skipExport (not_mem_trimLeft hmem)
    rw [if_neg hmem]
    simp only [if_neg hkey]
    split <;> rfl

/-! ## Values that are cut -/

/-- A value of two or three quotes, the last two of which are past the cut. -/
def QuoteRun (first whole : Bytes) : Prop :=
  ∃ q, (q = 0x22 ∨ q = 0x27) ∧ ((first = [] ∧ whole = [q, q]) ∨ (first = [q] ∧ whole = [q, q, q]))

theorem unquoted_cases (text : Bytes) :
    unquoted text = text ∨
      ∃ q middle, (q = 0x22 ∨ q = 0x27) ∧ text = q :: (middle ++ [q]) ∧ unquoted text = middle := by
  cases text with
  | nil => exact Or.inl rfl
  | cons q rest =>
    rw [unquoted]
    split
    · next h =>
      obtain ⟨before, hbefore⟩ := List.getLast?_eq_some_iff.mp h.2
      exact Or.inr ⟨q, before, h.1, by rw [hbefore], by rw [hbefore, List.dropLast_concat]⟩
    · exact Or.inl rfl

theorem unquoted_quotes {q : UInt8} (hq : q = 0x22 ∨ q = 0x27) (middle : Bytes) :
    unquoted (q :: (middle ++ [q])) = middle := by
  rw [unquoted, if_pos ⟨hq, by simp⟩, List.dropLast_concat]

theorem run_of_shift {q : UInt8} {first rest : Bytes} (h : q :: (first ++ [q]) = first ++ rest) :
    ∀ c ∈ first, c = q := by
  induction first with
  | nil => simp
  | cons c first ih =>
    obtain ⟨hc, htail⟩ := List.cons.inj h
    subst hc
    intro other hother
    rcases List.mem_cons.mp hother with rfl | hother
    · rfl
    · exact ih htail other hother

theorem unquoted_longer_iff {first more : Bytes} (hmore : more ≠ []) :
    unquoted (first ++ more) = unquoted first ↔ QuoteRun first (first ++ more) := by
  have hpos := List.length_pos_of_ne_nil hmore
  constructor
  · intro hsame
    have hlength := congrArg List.length hsame
    rcases unquoted_cases (first ++ more) with hwhole | ⟨q, middle, hq, htext, hwhole⟩
    · rw [hwhole, List.length_append] at hlength
      rcases unquoted_cases first with hfirst | ⟨q', middle', -, htext', hfirst⟩
      · rw [hfirst] at hlength
        omega
      · have hlength' := congrArg List.length htext'
        rw [hfirst] at hlength
        simp only [List.length_cons, List.length_append, List.length_nil] at hlength'
        omega
    · rcases unquoted_cases first with hfirst | ⟨q', middle', -, htext', hfirst⟩
      · have hmiddle : middle = first := by rw [← hwhole, hsame, hfirst]
        subst hmiddle
        have hrun := run_of_shift htext.symm
        refine ⟨q, hq, ?_⟩
        match middle, hrun with
        | [], _ => exact Or.inl ⟨rfl, htext⟩
        | [c], hrun =>
          have hc : c = q := hrun c (by simp)
          subst hc
          exact Or.inr ⟨rfl, htext⟩
        | c :: d :: rest, hrun =>
          -- a longer run would lose its own quotes
          have hc : c = q := hrun c (by simp)
          obtain ⟨before, last, hlast⟩ : ∃ before last, d :: rest = before ++ [last] :=
            ⟨_, _, (List.dropLast_append_getLast (List.cons_ne_nil d rest)).symm⟩
          have hl : last = q := hrun last (by rw [hlast]; simp)
          rw [hlast, hc, hl, unquoted_quotes hq] at hfirst
          have hlonger := congrArg List.length hfirst
          simp only [List.length_cons, List.length_append, List.length_nil] at hlonger
          omega
      · have hlength' := congrArg List.length htext'
        have hlength'' := congrArg List.length htext
        rw [hfirst, hwhole] at hlength
        simp only [List.length_cons, List.length_append, List.length_nil] at hlength' hlength''
        omega
  · intro hrun
    obtain ⟨q, hq, ⟨hfirst, hwhole⟩ | ⟨hfirst, hwhole⟩⟩ := hrun
    · rw [hwhole, hfirst]
      exact unquoted_quotes hq []
    · rw [hwhole, hfirst]
      have hsingle : unquoted [q] = [q] := by simp [unquoted]
      rw [hsingle]
      exact unquoted_quotes hq [q]

theorem rdropWhile_append_blank {text more : Bytes} (h : ∀ c ∈ more, isBlank c = true) :
    (text ++ more).rdropWhile isBlank = text.rdropWhile isBlank := by
  rw [List.rdropWhile, List.reverse_append, List.dropWhile_append_of_pos fun c hc =>
    h c (List.mem_reverse.mp hc), List.rdropWhile]

theorem rdropWhile_append {text more : Bytes} (h : ¬ ∀ c ∈ more, isBlank c = true) :
    (text ++ more).rdropWhile isBlank = text ++ more.rdropWhile isBlank := by
  have hne : more.reverse.dropWhile isBlank ≠ [] := fun hnil =>
    h fun c hc => List.dropWhile_eq_nil_iff.mp hnil c (List.mem_reverse.mpr hc)
  have hempty : (more.reverse.dropWhile isBlank).isEmpty = false := by simpa using hne
  rw [List.rdropWhile, List.reverse_append, List.dropWhile_append, hempty]
  simp [List.rdropWhile]

theorem stripped_append_blank {text more : Bytes} (h : ∀ c ∈ more, isBlank c = true) :
    stripped (text ++ more) = stripped text := by
  rw [stripped, stripped, List.dropWhile_append]
  split
  · next hempty =>
    have hnil : text.dropWhile isBlank = [] := by simpa using hempty
    rw [hnil, List.dropWhile_eq_nil_iff.mpr h]
  · exact rdropWhile_append_blank h

theorem stripped_append {text more : Bytes} (h : ¬ ∀ c ∈ more, isBlank c = true) :
    ∃ rest, rest ≠ [] ∧ stripped (text ++ more) = stripped text ++ rest := by
  have hend : more.rdropWhile isBlank ≠ [] := fun hnil => h (List.rdropWhile_eq_nil_iff.mp hnil)
  rw [stripped, stripped, List.dropWhile_append]
  split
  · next hempty =>
    have hnil : text.dropWhile isBlank = [] := by simpa using hempty
    refine ⟨(more.dropWhile isBlank).rdropWhile isBlank, fun hnone => h fun c hc => ?_, ?_⟩
    · have hall := List.rdropWhile_eq_nil_iff.mp hnone
      have hsplit := List.takeWhile_append_dropWhile (p := isBlank) (l := more)
      rw [← hsplit] at hc
      rcases List.mem_append.mp hc with hc | hc
      · exact List.mem_takeWhile_imp hc
      · exact hall c hc
    · rw [hnil]
      rfl
  · refine ⟨(text.dropWhile isBlank).rtakeWhile isBlank ++ more.rdropWhile isBlank,
      by simp [hend], ?_⟩
    rw [rdropWhile_append h, ← List.append_assoc, List.rdropWhile_append_rtakeWhile]

/-- **A value that is cut** is still the whole value when the rest is blank, or the value is a run
of quotes. -/
theorem unquoted_append_iff (text more : Bytes) :
    unquoted (stripped (text ++ more)) = unquoted (stripped text) ↔
      (∀ c ∈ more, isBlank c = true) ∨ QuoteRun (stripped text) (stripped (text ++ more)) := by
  by_cases hblank : ∀ c ∈ more, isBlank c = true
  · rw [stripped_append_blank hblank]
    exact ⟨fun _ => Or.inl hblank, fun _ => rfl⟩
  · obtain ⟨rest, hne, happend⟩ := @stripped_append text more hblank
    rw [happend, unquoted_longer_iff hne]
    exact ⟨Or.inr, fun h => h.resolve_left hblank⟩

/-! ## Lines that are cut -/

/-- The value as far as a piece of a line has it. -/
def valueStart (text : Bytes) : Bytes := (text.dropWhile (· != 0x3d)).drop 1

/-- A line that does not fit is harmless when no later piece looks like an assignment, and the
first piece has the `=` and the value of the assignment of the line, if it is one. -/
structure Harmless (line : Bytes) : Prop where
  later : ∀ piece ∈ pieces newline lineRoom (line.drop lineRoom), dotenvAssignment piece = none
  value : ∀ key value, dotenvAssignment line = some (key, value) →
    0x3d ∈ (stringText line).take lineRoom ∧
    ((∀ c ∈ (stringText line).drop lineRoom, isBlank c = true) ∨
      QuoteRun (stripped (valueStart ((stringText line).take lineRoom)))
        (stripped (valueStart (stringText line))))

/-- The assignment of a line is made from its first piece, and none from the middle of it. -/
structure Whole (line : Bytes) : Prop where
  first : ∀ piece ∈ (pieces newline lineRoom line).head?,
    lineAssignment piece = dotenvAssignment line
  later : ∀ piece ∈ (pieces newline lineRoom line).tail, lineAssignment piece = none

theorem stringText_take (line : Bytes) (limit : Nat) :
    stringText (line.take limit) = (stringText line).take limit := by
  induction line generalizing limit with
  | nil => simp [stringText]
  | cons c rest ih =>
    cases limit with
    | zero => rfl
    | succ limit =>
      have ih := ih limit
      rw [stringText, stringText] at ih ⊢
      rw [List.take_succ_cons, List.takeWhile_cons, List.takeWhile_cons]
      split
      · rw [ih, List.take_succ_cons]
      · rfl

theorem split_take {text more : Bytes} (h : 0x3d ∈ text) :
    (text ++ more).takeWhile (· != 0x3d) = text.takeWhile (· != 0x3d) ∧
      valueStart (text ++ more) = valueStart text ++ more := by
  have hsplit := split_equals h
  have hbefore := not_mem_takeWhile text
  rw [valueStart, valueStart]
  generalize text.takeWhile (· != 0x3d) = before at hsplit hbefore ⊢
  generalize (text.dropWhile (· != 0x3d)).drop 1 = after at hsplit ⊢
  have hother : ∀ c ∈ before, (c != 0x3d) = true := fun c hc =>
    bne_iff_ne.mpr fun heq => hbefore (heq ▸ hc)
  rw [hsplit, List.append_assoc, List.cons_append]
  constructor
  · rw [List.takeWhile_append_of_pos hother]
    simp
  · rw [List.dropWhile_append_of_pos hother]
    simp

theorem dotenvAssignment_take_iff (line : Bytes) (limit : Nat) :
    dotenvAssignment (line.take limit) = dotenvAssignment line ↔
      ∀ key value, dotenvAssignment line = some (key, value) → 0x3d ∈ (stringText line).take limit ∧
        ((∀ c ∈ (stringText line).drop limit, isBlank c = true) ∨
          QuoteRun (stripped (valueStart ((stringText line).take limit)))
            (stripped (valueStart (stringText line)))) := by
  have hwhole := List.take_append_drop limit (stringText line)
  have hline : dotenvAssignment line = if 0x3d ∈ stringText line then
        (dotenvKey ((stringText line).takeWhile (· != 0x3d))).map fun key =>
          (key, unquoted (stripped (valueStart (stringText line))))
      else none := rfl
  have hpiece : dotenvAssignment (line.take limit) = if 0x3d ∈ (stringText line).take limit then
        (dotenvKey (((stringText line).take limit).takeWhile (· != 0x3d))).map fun key =>
          (key, unquoted (stripped (valueStart ((stringText line).take limit))))
      else none := by
    rw [← stringText_take]
    rfl
  rw [hline, hpiece]
  generalize (stringText line).take limit = first at hwhole ⊢
  generalize (stringText line).drop limit = more at hwhole ⊢
  rw [← hwhole]
  by_cases hfirst : 0x3d ∈ first
  · obtain ⟨hkey, hvalue⟩ := @split_take first more hfirst
    rw [if_pos hfirst, if_pos (List.mem_append_left _ hfirst), hkey, hvalue]
    cases dotenvKey (first.takeWhile (· != 0x3d)) with
    | none => simp
    | some key =>
      have hcut := unquoted_append_iff (valueStart first) more
      simp only [Option.map_some, Option.some.injEq, Prod.mk.injEq, true_and]
      rw [eq_comm, hcut]
      exact ⟨fun h _ _ _ => ⟨hfirst, h⟩, fun h => (h _ _ ⟨rfl, rfl⟩).2⟩
  · rw [if_neg hfirst]
    constructor
    · intro hnone key value hsome
      rw [← hnone] at hsome
      cases hsome
    · intro h
      cases hsome : (if 0x3d ∈ first ++ more then
          (dotenvKey ((first ++ more).takeWhile (· != 0x3d))).map fun key =>
            (key, unquoted (stripped (valueStart (first ++ more))))
        else none) with
      | none => rfl
      | some entry => exact absurd (h entry.1 entry.2 hsome).1 hfirst

variable {line rest : Bytes}

/-- **A line is read as a whole** exactly when it fits or is harmless. -/
theorem whole_iff (h : Line newline line rest) :
    Whole line ↔ (lineRoom < line.length → Harmless line) := by
  have hroom : lineRoom ≠ 0 := by decide
  by_cases hfits : line.length ≤ lineRoom
  · have hpieces := pieces_of_le h hroom hfits
    refine ⟨fun _ hlong => absurd hfits (Nat.not_le.mpr hlong), fun _ => ⟨?_, ?_⟩⟩
    · intro piece hpiece
      rw [hpieces] at hpiece
      cases hpiece
      exact lineAssignment_eq line
    · intro piece hpiece
      rw [hpieces] at hpiece
      cases hpiece
  · have hlong : lineRoom < line.length := Nat.not_le.mp hfits
    have hpieces := pieces_of_lt h hroom
    constructor
    · intro hread _
      have hlater := hread.later
      have hfirst := hread.first
      rw [hpieces] at hlater hfirst
      refine ⟨fun piece hpiece => ?_, ?_⟩
      · rw [← lineAssignment_eq]
        exact hlater piece hpiece
      · rw [← dotenvAssignment_take_iff, ← lineAssignment_eq (line.take lineRoom)]
        exact hfirst _ rfl
    · intro hharmless
      have hread := hharmless hlong
      constructor
      · intro piece hpiece
        rw [hpieces] at hpiece
        cases hpiece
        rw [lineAssignment_eq]
        exact (dotenvAssignment_take_iff line lineRoom).mpr hread.value
      · intro piece hpiece
        rw [hpieces] at hpiece
        rw [lineAssignment_eq]
        exact hread.later piece hpiece

/-! ## Files -/

theorem Whole.assignments (hline : Line newline line rest) (h : Whole line) :
    (pieces newline lineRoom line).filterMap lineAssignment = (dotenvAssignment line).toList := by
  have hpieces := pieces_of_lt hline (show lineRoom ≠ 0 by decide)
  obtain ⟨hfirst, hlater⟩ := h
  rw [hpieces] at hfirst hlater ⊢
  have hnone : (pieces newline lineRoom (line.drop lineRoom)).filterMap lineAssignment = [] :=
    List.filterMap_eq_nil_iff.mpr hlater
  rw [List.filterMap_cons, hfirst _ rfl, hnone]
  cases dotenvAssignment line <;> rfl

theorem assignments_eq {content : Bytes} (h : ∀ line ∈ lines newline content, Whole line) :
    (pieces newline lineRoom content).filterMap lineAssignment =
      (lines newline content).filterMap dotenvAssignment := by
  rw [pieces_eq_flatMap (show lineRoom ≠ 0 by decide), List.filterMap_flatMap,
    List.filterMap_eq_flatMap_toList]
  refine List.flatMap_congr fun line hline => ?_
  obtain ⟨rest, hrest⟩ := line_of_mem hline
  exact (h line hline).assignments hrest

/-- **A file is loaded as its lines say**, and no assignment is made from the middle of a line or
from a part of its value, exactly when every line that does not fit into the buffer is harmless. -/
theorem dotenv_faithful (c : UInt8) (path content : Bytes) (overwrite : Bool) (memory : List Bool)
    (closes : Bool) (env : Environment) :
    (loadFile (some (c :: path)) (some content) overwrite memory closes env =
        closeFile closes (assignAll overwrite
          ((lines newline content).filterMap dotenvAssignment) memory env) ∧
      ∀ line ∈ lines newline content, Whole line) ↔
    ∀ line ∈ lines newline content, lineRoom < line.length → Harmless line := by
  have hwhole : (∀ line ∈ lines newline content, Whole line) ↔
      ∀ line ∈ lines newline content, lineRoom < line.length → Harmless line :=
    forall_congr' fun line => forall_congr' fun hline => by
      obtain ⟨rest, hrest⟩ := line_of_mem hline
      exact whole_iff hrest
  rw [← hwhole]
  refine ⟨And.right, fun h => ⟨?_, h⟩⟩
  rw [loadFile, loadLoop_eq, assignments_eq h]

/-! ## A comment that is cut -/

/-- What fills the buffer after the `#` of a comment. -/
def filler : Bytes := List.replicate 4094 0x78

/-- A comment that fills the buffer, and what looks like an assignment after it. -/
def longComment : Bytes := (0x23 :: filler) ++ [0x42, 0x3d, 0x31]

theorem line_of_plain (hne : text ≠ []) (h : ∀ c ∈ text, c ≠ newline) : Line newline text [] := by
  induction text with
  | nil => exact absurd rfl hne
  | cons c rest ih =>
    by_cases hrest : rest = []
    · rw [hrest]
      exact .last c
    · exact .more (h c List.mem_cons_self) (ih hrest fun d hd => h d (List.mem_cons_of_mem _ hd))

/-- The end of a long comment is taken for an assignment. -/
theorem dotenv_comment_assigned :
    ¬ ∀ (c : UInt8) (path content : Bytes) (overwrite : Bool) (memory : List Bool) (closes : Bool)
      (env : Environment),
      loadFile (some (c :: path)) (some content) overwrite memory closes env =
        closeFile closes (assignAll overwrite
          ((lines newline content).filterMap dotenvAssignment) memory env) := by
  intro h
  have hcomment : (0x23 :: filler).length = lineRoom := by
    rw [List.length_cons, filler, List.length_replicate, lineRoom]
  have hline : Line newline longComment [] := by
    refine line_of_plain (List.cons_ne_nil _ _) fun c hc => ?_
    have hfiller : c ∈ filler → c = 0x78 := List.eq_of_mem_replicate
    simp only [longComment, List.mem_append, List.mem_cons] at hc
    grind [newline]
  have htake : longComment.take lineRoom = 0x23 :: filler := by
    rw [longComment, ← hcomment, List.take_left]
  have hdrop : longComment.drop lineRoom = [0x42, 0x3d, 0x31] := by
    rw [longComment, ← hcomment, List.drop_left]
  have hend : pieces newline lineRoom [0x42, 0x3d, 0x31] = [[0x42, 0x3d, 0x31]] :=
    pieces_of_le (line_of_plain (by simp) (by simp [newline])) (by decide) (by decide)
  have hskipped : ∀ rest, lineAssignment (0x23 :: rest) = none := by
    simp [lineAssignment, stringText, trimLeft, isBlank]
  have hsecond : lineAssignment [0x42, 0x3d, 0x31] = some ([0x42], [0x31]) := by decide
  have hwhole : dotenvAssignment longComment = none := by
    rw [← lineAssignment_eq]
    exact hskipped _
  have hlines : lines newline longComment = [longComment] := by
    have happend := lines_append hline
    rwa [List.append_nil, lines] at happend
  have hmade := congrArg Loaded.made (h 0x2e [] longComment true [] true fun _ => none)
  rw [loadFile, loadLoop_eq, pieces_of_lt hline (by decide), htake, hdrop, hend, hlines] at hmade
  simp [hskipped, hsecond, hwhole, assignAll, closeFile] at hmade

end Dcc.App.Dotenv
