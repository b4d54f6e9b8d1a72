import Dcc.Lib.SplitWord
import Dcc.Rest.Buffer

/-!
# Multipart bodies

`dcc_rest_build_multipart_body` measures the fields and the files of a request, writes them one
after another between lines with a fixed boundary, and compares the lengths.  Names and types are
checked so that they stay within their quotes and lines.  The values of fields and the data of
files are not checked.

* `measure_ok` — what is measured is the length of what is written, whose names are plain;
* `decode_iff` — by the rules of multipart bodies the parts come back exactly where no content has
  a line that starts with the boundary;
* `build_decodes` — so a body has the measured length, and gives the parts back exactly then.
-/

namespace Dcc.Rest.Multipart

open SplitWord (Free Solid cut splitAll)

/-! ## The request -/

/-- `dcc_rest_multipart_field_t`, with C strings that may be missing. -/
structure Field where
  name : Option Bytes
  value : Option Bytes

/-- `data` and `data_len` of a file. -/
inductive FileData
  | null (len : Nat)
  | bytes (data : Bytes)

/-- `dcc_rest_multipart_file_t`. -/
structure File where
  fieldName : Option Bytes
  filename : Option Bytes
  contentType : Option Bytes
  data : FileData

/-- `DCC_REST_MULTIPART_BOUNDARY`. -/
def boundary : Bytes := asciiText "dcc-boundary-7MA4YWxkTrZu0gW"

/-- `"\r\n"`. -/
def crlf : Bytes := [0x0d, 0x0a]

/-- `"--"`. -/
def dashes : Bytes := [0x2d, 0x2d]

/-- `'"'`. -/
def quote : UInt8 := 0x22

/-- `"--" DCC_REST_MULTIPART_BOUNDARY "\r\n"`. -/
def boundaryLine : Bytes := dashes ++ (boundary ++ crlf)

/-- `"--" DCC_REST_MULTIPART_BOUNDARY "--\r\n"`. -/
def closeLine : Bytes := dashes ++ (boundary ++ (dashes ++ crlf))

/-- `"Content-Disposition: form-data; name=\""`. -/
def dispositionText : Bytes := asciiText "Content-Disposition: form-data; name=\""

/-- `"\"; filename=\""`. -/
def filenameText : Bytes := quote :: asciiText "; filename=\""

/-- `"Content-Type: "`. -/
def typeText : Bytes := asciiText "Content-Type: "

/-- The type of a file, or the one that it has by default. -/
def File.type (file : File) : Bytes :=
  match file.contentType with
  | some (ch :: text) => ch :: text
  | _ => asciiText "application/octet-stream"

/-! ## Measuring -/

/-- `dcc_rest_multipart_size_add`. -/
def sizeAdd (total amount : Nat) : Option Nat :=
  if wordMax - 1 < total ∨ wordMax - 1 - total < amount then none else some (total + amount)

/-- `dcc_rest_multipart_quoted_token_valid`. -/
def quotedTokenValid : Option Bytes → Bool
  | none => false
  | some value => value != [] && value.all fun p => p != 0x0d && p != 0x0a && p != quote

/-- `dcc_rest_multipart_header_value_valid`. -/
def headerValueValid : Option Bytes → Bool
  | none => false
  | some value => value != [] && value.all fun p => p != 0x0d && p != 0x0a

/-- `strlen`, of a C string that is there. -/
def textLen (text : Option Bytes) : Nat := (text.getD []).length

/-- Lengths that are added up to one that is within the limit. -/
def sizesAdd (bodyLen : Nat) (amounts : List Nat) : Except Status Nat :=
  match amounts.foldlM sizeAdd bodyLen with
  | none => .error .invalidArg
  | some total => .ok total

/-- `dcc_rest_multipart_measure_field_part`. -/
def measureFieldPart (bodyLen : Nat) (name : Option Bytes) (valueLen : Nat) :
    Except Status Nat :=
  if !quotedTokenValid name then .error .invalidArg
  else
    sizesAdd bodyLen [boundaryLine.length, dispositionText.length, textLen name,
      (quote :: (crlf ++ crlf)).length, valueLen, crlf.length]

/-- `file->data_len`. -/
def FileData.len : FileData → Nat
  | .null len => len
  | .bytes data => data.length

/-- `file->data_len != 0U && file->data == NULL`. -/
def FileData.missing : FileData → Bool
  | .null len => len != 0
  | .bytes _ => false

/-- `dcc_rest_multipart_measure_file_part`. -/
def measureFilePart (bodyLen : Nat) (file : File) : Except Status Nat :=
  if !quotedTokenValid file.fieldName || !quotedTokenValid file.filename ||
      (textLen file.contentType != 0 && !headerValueValid file.contentType) ||
      file.data.missing then .error .invalidArg
  else
    sizesAdd bodyLen [boundaryLine.length, dispositionText.length, textLen file.fieldName,
      filenameText.length, textLen file.filename, (quote :: (crlf ++ typeText)).length,
      file.type.length, (crlf ++ crlf).length, file.data.len, crlf.length]

/-- The loop of `dcc_rest_multipart_measure` over the fields. -/
def measureFields : Nat → List Field → Except Status Nat
  | bodyLen, [] => .ok bodyLen
  | bodyLen, field :: fields =>
    if !quotedTokenValid field.name || field.value.isNone then .error .invalidArg
    else
      match measureFieldPart bodyLen field.name (textLen field.value) with
      | .error status => .error status
      | .ok bodyLen => measureFields bodyLen fields

/-- `dcc_rest_multipart_measure_files_and_close`. -/
def measureFilesAndClose : Nat → List File → Except Status Nat
  | bodyLen, [] => sizesAdd bodyLen [closeLine.length]
  | bodyLen, file :: files =>
    match measureFilePart bodyLen file with
    | .error status => .error status
    | .ok bodyLen => measureFilesAndClose bodyLen files

/-- `dcc_rest_multipart_measure`. -/
def measure (fields : List Field) (files : List File) : Except Status Nat :=
  if fields = [] ∧ files = [] then .error .invalidArg
  else
    match measureFields 0 fields with
    | .error status => .error status
    | .ok bodyLen => measureFilesAndClose bodyLen files

/-! ## Writing -/

/-- `dcc_rest_buffer_append_cstr`. -/
def cstrStep : Option Bytes → Except Status Bytes
  | none => .error .invalidArg
  | some text => .ok text

/-- `dcc_rest_buffer_append` of the data of a file. -/
def dataStep : FileData → Except Status Bytes
  | .null 0 => .ok []
  | .null (_ + 1) => .error .invalidArg
  | .bytes data => .ok data

/-- `dcc_rest_multipart_append_field`. -/
def appendField (field : Field) : List (Except Status Bytes) :=
  [.ok boundaryLine, .ok dispositionText, cstrStep field.name, .ok (quote :: (crlf ++ crlf)),
    cstrStep field.value, .ok crlf]

/-- `dcc_rest_multipart_append_file`. -/
def appendFile (file : File) : List (Except Status Bytes) :=
  [.ok boundaryLine, .ok dispositionText, cstrStep file.fieldName, .ok filenameText,
    cstrStep file.filename, .ok (quote :: (crlf ++ typeText)), .ok file.type, .ok (crlf ++ crlf),
    dataStep file.data, .ok crlf]

/-- `dcc_rest_build_multipart_body`; `none` where a write would leave the buffer. -/
def buildMultipartBody (heap : Heap) (fields : List Field) (files : List File) :
    Option (Except Status Bytes) :=
  match measure fields files with
  | .error status => some (.error status)
  | .ok measuredLen =>
    match appendSteps heap Buffer.empty
        (fields.flatMap appendField ++ (files.flatMap appendFile ++ [.ok closeLine])) with
    | none => none
    | some (.ok, buffer) =>
      if buffer.len ≠ measuredLen then some (.error .runtime)
      else some (.ok (buffer.block.take buffer.len))
    | some (status, _) => some (.error status)

/-! ## The parts of a body -/

/-- A part as the reader of a body sees it. -/
structure Part where
  name : Bytes
  filename : Option Bytes
  contentType : Option Bytes
  content : Bytes
  deriving DecidableEq

/-- What starts a line with the boundary, with the end of the line before it. -/
def delimiter : Bytes := crlf ++ (dashes ++ boundary)

/-- The lines in front of the blank line, and what follows it. -/
def readHeaders : Nat → Bytes → Option (List Bytes × Bytes)
  | 0, _ => none
  | fuel + 1, text =>
    match cut crlf text with
    | none => none
    | some (line, rest) =>
      if line = [] then some ([], rest)
      else (readHeaders fuel rest).map fun r => (line :: r.1, r.2)

/-- The text behind a front. -/
def dropText (front text : Bytes) : Option Bytes :=
  if front.isPrefixOf text then some (text.drop front.length) else none

/-- The name and the file name of a `Content-Disposition` line. -/
def readDisposition (line : Bytes) : Option (Bytes × Option Bytes) := do
  let rest ← dropText dispositionText line
  let (name, rest) ← cut [quote] rest
  if rest = [] then some (name, none)
  else
    let rest ← dropText (asciiText "; filename=\"") rest
    let (filename, rest) ← cut [quote] rest
    if rest = [] then some (name, some filename) else none

/-- A part from what stands between two boundaries: the rest of the first line, the headers, a
blank line, and the content. -/
def readPart (segment : Bytes) : Option Part := do
  let (_, rest) ← cut crlf segment
  let (lines, content) ← readHeaders rest.length rest
  let (name, filename) ← lines.findSome? readDisposition
  some { name, filename, contentType := lines.findSome? (dropText typeText), content }

/-- The parts up to the boundary that closes the body. -/
def readParts : List Bytes → Option (List Part)
  | [] => none
  | segment :: segments =>
    if dashes.isPrefixOf segment then some []
    else
      match readPart segment with
      | none => none
      | some part => (readParts segments).map (part :: ·)

/-- **The parts of a body** by the rules of multipart bodies: every line that starts with the
boundary delimits, and what stands before the first one is left out. -/
def decode (body : Bytes) : Option (List Part) :=
  readParts (splitAll delimiter (crlf ++ body)).tail

/-- The part of a field. -/
def Field.part (field : Field) : Part :=
  { name := field.name.getD [], filename := none, contentType := none
    content := field.value.getD [] }

/-- What a file holds. -/
def FileData.content : FileData → Bytes
  | .null _ => []
  | .bytes data => data

/-- The part of a file. -/
def File.part (file : File) : Part :=
  { name := file.fieldName.getD [], filename := some (file.filename.getD [])
    contentType := some file.type, content := file.data.content }

/-- The parts of a request. -/
def partsOf (fields : List Field) (files : List File) : List Part :=
  fields.map Field.part ++ files.map File.part

/-! ## The text of a body -/

/-- A text that stays on its line. -/
def OneLine (text : Bytes) : Prop := 0x0d ∉ text

theorem oneLine_nil : OneLine [] := List.not_mem_nil

theorem OneLine.append {text rest : Bytes} (h : OneLine text) (hrest : OneLine rest) :
    OneLine (text ++ rest) := by
  intro hmem
  rcases List.mem_append.mp hmem with hmem | hmem
  · exact h hmem
  · exact hrest hmem

/-- A text that stays between its quotes. -/
def Quotable (text : Bytes) : Prop := OneLine text ∧ quote ∉ text

/-- A part whose names and type are where they belong. -/
structure Part.Plain (part : Part) : Prop where
  name : Quotable part.name
  filename : ∀ filename, part.filename = some filename → Quotable filename
  contentType : ∀ type, part.contentType = some type → OneLine type

/-- The `Content-Disposition` line of a part. -/
def Part.disposition (part : Part) : Bytes :=
  dispositionText ++ (part.name ++ match part.filename with
    | none => [quote]
    | some filename => filenameText ++ (filename ++ [quote]))

/-- The header lines of a part. -/
def Part.headers (part : Part) : List Bytes :=
  part.disposition :: (part.contentType.map (typeText ++ ·)).toList

/-- The headers, the blank line and the content. -/
def headerText (content : Bytes) : List Bytes → Bytes
  | [] => crlf ++ content
  | line :: lines => line ++ (crlf ++ headerText content lines)

/-- What stands between two boundaries. -/
def Part.segment (part : Part) : Bytes := crlf ++ headerText part.content part.headers

/-- A part with the boundary in front of it. -/
def Part.text (part : Part) : Bytes := dashes ++ (boundary ++ (part.segment ++ crlf))

/-- The body of some parts. -/
def bodyText (parts : List Part) : Bytes := parts.flatMap Part.text ++ closeLine

/-! ## What is measured -/

variable {text : Bytes}

theorem quotable_of_valid (h : quotedTokenValid (some text) = true) :
    Quotable text := by
  simp only [quotedTokenValid, Bool.and_eq_true, List.all_eq_true, bne_iff_ne] at h
  exact ⟨fun hmem => (h.2 _ hmem).1.1 rfl, fun hmem => (h.2 _ hmem).2 rfl⟩

theorem oneLine_of_valid (h : headerValueValid (some text) = true) :
    OneLine text := by
  simp only [headerValueValid, Bool.and_eq_true, List.all_eq_true, bne_iff_ne] at h
  exact fun hmem => (h.2 _ hmem).1 rfl

theorem sizesAdd_ok {amounts : List Nat} {total n : Nat} (h : sizesAdd total amounts = .ok n) :
    n = total + amounts.sum ∧ (amounts ≠ [] → n < wordMax) := by
  rw [sizesAdd] at h
  split at h
  · cases h
  · next total' hfold =>
    cases h
    induction amounts generalizing total with
    | nil =>
      cases hfold
      exact ⟨rfl, fun hne => absurd rfl hne⟩
    | cons amount amounts ih =>
      rw [List.foldlM_cons] at hfold
      obtain ⟨next, hnext, hrest⟩ := Option.bind_eq_some_iff.mp hfold
      obtain ⟨hsum, hbound⟩ := ih hrest
      rw [sizeAdd, Option.ite_none_left_eq_some] at hnext
      obtain ⟨hfits, heq⟩ := hnext
      cases heq
      have hword : wordMax = 2 ^ 64 - 1 := rfl
      refine ⟨by rw [hsum, List.sum_cons]; omega, fun _ => ?_⟩
      cases amounts with
      | nil =>
        rw [List.sum_nil] at hsum
        omega
      | cons other amounts => exact hbound (List.cons_ne_nil _ _)

theorem puts_field (name value : Bytes) :
    Puts (appendField ⟨some name, some value⟩) (Field.part ⟨some name, some value⟩).text := by
  refine ⟨[boundaryLine, dispositionText, name, quote :: (crlf ++ crlf), value, crlf], rfl, ?_⟩
  simp [Part.text, Part.segment, Part.headers, Part.disposition, headerText, Field.part,
    boundaryLine]

variable {bodyLen n : Nat}

theorem measureField_ok {field : Field}
    (hvalid : ¬ (!quotedTokenValid field.name || field.value.isNone) = true)
    (h : measureFieldPart bodyLen field.name (textLen field.value) = .ok n) :
    Puts (appendField field) field.part.text ∧ n = bodyLen + field.part.text.length ∧
      field.part.Plain := by
  obtain ⟨name, value⟩ := field
  cases name with
  | none => exact absurd rfl hvalid
  | some name =>
    cases value with
    | none => simp at hvalid
    | some value =>
      have hname : quotedTokenValid (some name) = true := by simpa using hvalid
      rw [measureFieldPart, if_neg (by simp [hname])] at h
      have hsum := (sizesAdd_ok h).1
      refine ⟨puts_field name value, ?_, quotable_of_valid hname, nofun, nofun⟩
      obtain ⟨pieces, hsteps, htext⟩ := puts_field name value
      rw [hsum]
      simp [Part.text, Part.segment, Part.headers, Part.disposition, headerText, Field.part,
        boundaryLine, textLen]
      omega

variable {fields : List Field}

theorem measureFields_ok (h : measureFields bodyLen fields = .ok n) :
    Puts (fields.flatMap appendField) ((fields.map Field.part).flatMap Part.text) ∧
      n = bodyLen + ((fields.map Field.part).flatMap Part.text).length ∧
        ∀ part ∈ fields.map Field.part, part.Plain := by
  induction fields generalizing bodyLen with
  | nil =>
    cases h
    exact ⟨puts_nil, rfl, fun part hpart => nomatch hpart⟩
  | cons field fields ih =>
    rw [measureFields] at h
    split at h
    · cases h
    · next hvalid =>
      split at h
      · cases h
      · next bodyLen' hfield =>
        obtain ⟨hputs, hlength, hplain⟩ := measureField_ok hvalid hfield
        obtain ⟨hmore, hrest, hall⟩ := ih h
        refine ⟨hputs.append hmore, ?_, ?_⟩
        · rw [List.map_cons, List.flatMap_cons, List.length_append]
          omega
        · intro part hpart
          rcases List.mem_cons.mp hpart with rfl | hmem
          · exact hplain
          · exact hall part hmem

theorem puts_file {name filename : Bytes} {contentType : Option Bytes} {data : FileData}
    (h : data.missing = false) :
    Puts (appendFile ⟨some name, some filename, contentType, data⟩)
      (File.part ⟨some name, some filename, contentType, data⟩).text := by
  have hdata : dataStep data = .ok data.content := by
    cases data with
    | null len =>
      cases len with
      | zero => rfl
      | succ len => cases h
    | bytes data => rfl
  refine ⟨[boundaryLine, dispositionText, name, filenameText, filename,
    quote :: (crlf ++ typeText), File.type ⟨some name, some filename, contentType, data⟩,
    crlf ++ crlf, data.content, crlf], ?_, ?_⟩
  · simp [appendFile, hdata, cstrStep]
  · simp [Part.text, Part.segment, Part.headers, Part.disposition, headerText, File.part,
      boundaryLine]

theorem oneLine_type {file : File}
    (h : ¬ (textLen file.contentType != 0 && !headerValueValid file.contentType) = true) :
    OneLine file.type := by
  rw [File.type]
  split
  · next ch text htype =>
    refine oneLine_of_valid ?_
    rw [htype] at h
    simpa [textLen] using h
  · unfold OneLine
    decide

theorem measureFile_ok {file : File} (h : measureFilePart bodyLen file = .ok n) :
    Puts (appendFile file) file.part.text ∧ n = bodyLen + file.part.text.length ∧
      file.part.Plain := by
  rw [measureFilePart] at h
  split at h
  · cases h
  · next hvalid =>
    have hsum := (sizesAdd_ok h).1
    simp only [Bool.or_eq_true, not_or] at hvalid
    obtain ⟨⟨⟨hname, hfilename⟩, htype⟩, hdata⟩ := hvalid
    have honeLine := oneLine_type htype
    obtain ⟨name, filename, contentType, data⟩ := file
    have hpresent : data.missing = false := by simpa using hdata
    cases name with
    | none => exact absurd rfl hname
    | some name =>
      cases filename with
      | none => exact absurd rfl hfilename
      | some filename =>
        have hname : quotedTokenValid (some name) = true := by simpa using hname
        have hfilename : quotedTokenValid (some filename) = true := by simpa using hfilename
        refine ⟨puts_file hpresent, ?_, quotable_of_valid hname, ?_, ?_⟩
        · have hlen : data.len = data.content.length := by
            cases data with
            | null len => simpa [FileData.missing, FileData.len, FileData.content] using hpresent
            | bytes data => rfl
          rw [hsum]
          simp [Part.text, Part.segment, Part.headers, Part.disposition, headerText, File.part,
            boundaryLine, textLen, hlen]
          omega
        · intro text htext
          cases htext
          exact quotable_of_valid hfilename
        · intro text htext
          cases htext
          exact honeLine

variable {files : List File}

theorem measureFiles_ok (h : measureFilesAndClose bodyLen files = .ok n) :
    Puts (files.flatMap appendFile ++ [.ok closeLine]) (bodyText (files.map File.part)) ∧
      n = bodyLen + (bodyText (files.map File.part)).length ∧ n < wordMax ∧
        ∀ part ∈ files.map File.part, part.Plain := by
  induction files generalizing bodyLen with
  | nil =>
    obtain ⟨hsum, hbound⟩ := sizesAdd_ok h
    exact ⟨puts_ok closeLine, hsum, hbound (List.cons_ne_nil _ _), fun part hpart => nomatch hpart⟩
  | cons file files ih =>
    rw [measureFilesAndClose] at h
    split at h
    · cases h
    · next bodyLen' hfile =>
      obtain ⟨hputs, hlength, hplain⟩ := measureFile_ok hfile
      obtain ⟨hmore, hrest, hbound, hall⟩ := ih h
      have hsplit : bodyText ((file :: files).map File.part) =
          file.part.text ++ bodyText (files.map File.part) := by
        rw [bodyText, List.map_cons, List.flatMap_cons, List.append_assoc]
        rfl
      rw [hsplit]
      refine ⟨?_, ?_, hbound, ?_⟩
      · rw [List.flatMap_cons, List.append_assoc]
        exact hputs.append hmore
      · rw [List.length_append]
        omega
      · intro part hpart
        rcases List.mem_cons.mp hpart with rfl | hmem
        · exact hplain
        · exact hall part hmem

/-- **What is measured** is the length of the body that is written. -/
theorem measure_ok {n : Nat} (h : measure fields files = .ok n) :
    Puts (fields.flatMap appendField ++ (files.flatMap appendFile ++ [.ok closeLine]))
        (bodyText (partsOf fields files)) ∧
      n = (bodyText (partsOf fields files)).length ∧ n < wordMax ∧
        ∀ part ∈ partsOf fields files, part.Plain := by
  rw [measure] at h
  split at h
  · cases h
  · split at h
    · cases h
    · next bodyLen hfields =>
      obtain ⟨hputs, hlength, hplain⟩ := measureFields_ok hfields
      obtain ⟨hmore, hrest, hbound, hall⟩ := measureFiles_ok h
      have hsplit : bodyText (partsOf fields files) =
          (fields.map Field.part).flatMap Part.text ++ bodyText (files.map File.part) := by
        rw [bodyText, partsOf, List.flatMap_append, List.append_assoc]
        rfl
      rw [hsplit]
      refine ⟨hputs.append hmore, ?_, hbound, ?_⟩
      · rw [List.length_append]
        omega
      · intro part hpart
        rcases List.mem_append.mp hpart with hmem | hmem
        · exact hplain part hmem
        · exact hall part hmem

/-! ## Reading a part back -/

theorem solid_crlf : Solid crlf := ⟨0x0d, [0x0a], rfl, by decide⟩

theorem solid_quote : Solid [quote] := ⟨quote, [], rfl, by decide⟩

theorem solid_delimiter : Solid delimiter := ⟨0x0d, _, rfl, by decide⟩

theorem free_crlf (h : OneLine text) : Free crlf text :=
  SplitWord.free_of_not_mem h

theorem free_quote (h : quote ∉ text) : Free [quote] text :=
  SplitWord.free_of_not_mem h

theorem dropText_append (front text : Bytes) : dropText front (front ++ text) = some text := by
  rw [dropText, if_pos (List.isPrefixOf_iff_prefix.mpr (List.prefix_append _ _)), List.drop_left]

variable {part : Part}

theorem readDisposition_disposition (h : part.Plain) :
    readDisposition part.disposition = some (part.name, part.filename) := by
  have hname : ∀ rest, cut [quote] (part.name ++ ([quote] ++ rest)) = some (part.name, rest) :=
    fun rest => SplitWord.cut_append solid_quote (free_quote h.name.2) rest
  rw [readDisposition, Part.disposition, dropText_append]
  cases hfilename : part.filename with
  | none =>
    have hcut := hname []
    rw [List.append_nil] at hcut
    simp [hcut]
  | some filename =>
    have hcut := hname (asciiText "; filename=\"" ++ (filename ++ [quote]))
    have hlast : cut [quote] (filename ++ ([quote] ++ [])) = some (filename, []) :=
      SplitWord.cut_append solid_quote (free_quote (h.filename filename hfilename).2) []
    rw [List.append_nil] at hlast
    have hsplit : filenameText ++ (filename ++ [quote]) =
        [quote] ++ (asciiText "; filename=\"" ++ (filename ++ [quote])) := rfl
    simp only [hsplit, Option.bind_eq_bind, Option.bind_some, hcut, dropText_append, hlast]
    rfl

/-- A header line is not empty and stays a line. -/
def HeaderLine (line : Bytes) : Prop := OneLine line ∧ ∃ ch rest, line = ch :: rest ∧ ch ≠ 0x2d

theorem headerLine_disposition (h : part.Plain) : HeaderLine part.disposition := by
  refine ⟨?_, 0x43, _, rfl, by decide⟩
  have htext : OneLine dispositionText := by
    unfold OneLine
    decide
  have hfilenameText : OneLine filenameText := by
    unfold OneLine
    decide
  have hquote : OneLine [quote] := by
    unfold OneLine
    decide
  refine htext.append (h.name.1.append ?_)
  cases hfilename : part.filename with
  | none => exact hquote
  | some filename =>
    exact hfilenameText.append ((h.filename filename hfilename).1.append hquote)

theorem headerLine_type {type : Bytes} (h : OneLine type) : HeaderLine (typeText ++ type) := by
  refine ⟨?_, 0x43, _, rfl, by decide⟩
  have htext : OneLine typeText := by
    unfold OneLine
    decide
  exact htext.append h

theorem headerLine_of_mem (h : part.Plain) {line : Bytes}
    (hline : line ∈ part.headers) : HeaderLine line := by
  rcases List.mem_cons.mp hline with rfl | hmem
  · exact headerLine_disposition h
  · rw [Option.mem_toList, Option.map_eq_some_iff] at hmem
    obtain ⟨type, htype, rfl⟩ := hmem
    exact headerLine_type (h.contentType type htype)

theorem cut_nil (rest : Bytes) : cut crlf (crlf ++ rest) = some ([], rest) :=
  SplitWord.cut_append solid_crlf (free_crlf oneLine_nil) rest

theorem readHeaders_headerText {lines : List Bytes} (h : ∀ line ∈ lines, HeaderLine line)
    (content : Bytes) {fuel : Nat} (hfuel : lines.length < fuel) :
    readHeaders fuel (headerText content lines) = some (lines, content) := by
  induction lines generalizing fuel with
  | nil =>
    obtain ⟨fuel, rfl⟩ := Nat.exists_eq_succ_of_ne_zero (Nat.ne_of_gt hfuel)
    simp only [readHeaders, headerText, cut_nil, if_true]
  | cons line lines ih =>
    obtain ⟨fuel, rfl⟩ := Nat.exists_eq_succ_of_ne_zero (Nat.ne_of_gt (Nat.zero_lt_of_lt hfuel))
    obtain ⟨hone, ch, rest, rfl, -⟩ := h line List.mem_cons_self
    have hcut := SplitWord.cut_append solid_crlf (free_crlf hone) (headerText content lines)
    have hmore := @ih (fun other hother => h other (List.mem_cons_of_mem _ hother)) fuel
      (Nat.lt_of_succ_lt_succ hfuel)
    simp only [readHeaders, headerText, hcut, List.cons_ne_nil, if_false, hmore, Option.map_some]

theorem length_headerText (content : Bytes) (lines : List Bytes) :
    lines.length < (headerText content lines).length := by
  induction lines with
  | nil => simp [headerText, crlf]
  | cons line lines ih =>
    rw [headerText, List.length_append, List.length_append, List.length_cons]
    have hcrlf : crlf.length = 2 := rfl
    omega

/-- **A part reads back** from what stands between two boundaries. -/
theorem readPart_segment (h : part.Plain) : readPart part.segment = some part := by
  have hheaders := @readHeaders_headerText _ (fun line hline => headerLine_of_mem h hline)
    part.content _ (length_headerText part.content part.headers)
  have hdisposition := readDisposition_disposition h
  have hnotType : dropText typeText part.disposition = none := rfl
  rw [readPart, Part.segment, cut_nil]
  simp only [Option.bind_eq_bind, Option.bind_some, hheaders]
  obtain ⟨name, filename, contentType, content⟩ := part
  cases contentType with
  | none => simp [Part.headers, hdisposition, hnotType]
  | some type => simp [Part.headers, hdisposition, hnotType, dropText_append]

/-! ## The boundaries of a body -/

theorem free_line {line rest : Bytes} (hline : OneLine line)
    (hhead : ∀ ch ∈ line.head?, ch ≠ 0x2d) (h : Free delimiter (crlf ++ rest)) :
    Free delimiter (crlf ++ (line ++ (crlf ++ rest))) := by
  intro hword
  rcases List.infix_cons_iff.mp hword with hprefix | hinfix
  · -- the boundary would start the line
    have htail := (List.cons_prefix_cons.mp (List.cons_prefix_cons.mp hprefix).2).2
    cases line with
    | nil => exact absurd (List.cons_prefix_cons.mp htail).1 (by decide)
    | cons ch line => exact hhead ch rfl (List.cons_prefix_cons.mp htail).1.symm
  · rcases List.infix_cons_iff.mp hinfix with hprefix | hinfix
    · exact absurd (List.cons_prefix_cons.mp hprefix).1 (by decide)
    · exact SplitWord.free_append hline h hinfix

variable {lines : List Bytes}

theorem free_headerText {content : Bytes}
    (hlines : ∀ line ∈ lines, HeaderLine line) (h : Free delimiter (crlf ++ content)) :
    Free delimiter (crlf ++ headerText content lines) := by
  induction lines with
  | nil => exact @free_line [] content oneLine_nil nofun h
  | cons line lines ih =>
    obtain ⟨hone, ch, rest, rfl, hch⟩ := hlines line List.mem_cons_self
    refine free_line hone ?_ (ih fun other hother => hlines other (List.mem_cons_of_mem _ hother))
    intro other hother
    cases hother
    exact hch

theorem readHeaders_suffix {fuel : Nat} {text content : Bytes}
    (h : readHeaders fuel text = some (lines, content)) : crlf ++ content <:+ text := by
  induction fuel generalizing text lines with
  | zero => cases h
  | succ fuel ih =>
    rw [readHeaders] at h
    split at h
    · cases h
    · next line rest hcut =>
      obtain ⟨rfl, -⟩ := SplitWord.cut_some solid_crlf.ne_nil hcut
      split at h
      · cases h
        exact List.suffix_append _ _
      · obtain ⟨r, hr, heq⟩ := Option.map_eq_some_iff.mp h
        cases heq
        exact (ih hr).trans ((List.suffix_append _ _).trans (List.suffix_append _ _))

theorem readPart_free {segment : Bytes} (h : readPart segment = some part)
    (hfree : Free delimiter segment) : Free delimiter (crlf ++ part.content) := by
  rw [readPart, Option.bind_eq_bind] at h
  obtain ⟨⟨pad, rest⟩, hcut, h⟩ := Option.bind_eq_some_iff.mp h
  obtain ⟨⟨lines, content⟩, hheaders, h⟩ := Option.bind_eq_some_iff.mp h
  obtain ⟨⟨name, filename⟩, hdisposition, h⟩ := Option.bind_eq_some_iff.mp h
  cases h
  obtain ⟨rfl, -⟩ := SplitWord.cut_some solid_crlf.ne_nil hcut
  refine hfree.of_infix ?_
  exact ((readHeaders_suffix hheaders).trans
    ((List.suffix_append _ _).trans (List.suffix_append _ _))).isInfix

variable {parts : List Part}

theorem readParts_free {segments : List Bytes}
    (h : readParts segments = some parts) (hfree : ∀ segment ∈ segments, Free delimiter segment) :
    ∀ part ∈ parts, Free delimiter (crlf ++ part.content) := by
  induction segments generalizing parts with
  | nil => cases h
  | cons segment segments ih =>
    rw [readParts] at h
    split at h
    · cases h
      exact fun part hpart => nomatch hpart
    · split at h
      · cases h
      · next part hpart =>
        obtain ⟨more, hmore, rfl⟩ := Option.map_eq_some_iff.mp h
        intro other hother
        rcases List.mem_cons.mp hother with rfl | hmem
        · exact readPart_free hpart (hfree segment List.mem_cons_self)
        · exact ih hmore (fun s hs => hfree s (List.mem_cons_of_mem _ hs)) other hmem

theorem readParts_segments (h : ∀ part ∈ parts, part.Plain) :
    readParts (parts.map Part.segment ++ [dashes ++ crlf]) = some parts := by
  induction parts with
  | nil => rfl
  | cons part parts ih =>
    have hnot : ¬ dashes.isPrefixOf part.segment = true := by
      intro hprefix
      cases hprefix
    have hpart := readPart_segment (h part List.mem_cons_self)
    have hmore := ih fun other hother => h other (List.mem_cons_of_mem _ hother)
    rw [List.map_cons, List.cons_append, readParts, if_neg hnot, hpart]
    simp only [hmore, Option.map_some]

theorem bodyText_eq (parts : List Part) :
    crlf ++ bodyText parts =
      [] ++ (parts.map Part.segment ++ [dashes ++ crlf]).flatMap (delimiter ++ ·) := by
  rw [bodyText, List.nil_append]
  induction parts with
  | nil => simp [delimiter, closeLine]
  | cons part parts ih =>
    rw [List.flatMap_cons, List.append_assoc, List.map_cons, List.cons_append, List.flatMap_cons,
      ← ih]
    simp [Part.text, delimiter]

/-- **The parts come back** exactly where none of them holds a line that starts with the
boundary. -/
theorem decode_iff (h : ∀ part ∈ parts, part.Plain) :
    decode (bodyText parts) = some parts ↔
      ∀ part ∈ parts, Free delimiter (crlf ++ part.content) := by
  constructor
  · intro hdecode
    refine readParts_free hdecode fun segment hsegment => ?_
    exact SplitWord.free_of_mem_splitAll solid_delimiter.ne_nil (List.mem_of_mem_tail hsegment)
  · intro hfree
    have hsegments : ∀ segment ∈ [] :: (parts.map Part.segment ++ [dashes ++ crlf]),
        Free delimiter segment := by
      intro segment hsegment
      rcases List.mem_cons.mp hsegment with rfl | hmem
      · exact SplitWord.free_of_not_mem (by simp)
      · rcases List.mem_append.mp hmem with hmem | hmem
        · obtain ⟨part, hpart, rfl⟩ := List.mem_map.mp hmem
          exact free_headerText (fun line hline => headerLine_of_mem (h part hpart) hline)
            (hfree part hpart)
        · rw [List.mem_singleton.mp hmem]
          exact fun hword => absurd hword.length_le (by decide)
    rw [decode, bodyText_eq, SplitWord.splitAll_join solid_delimiter hsegments, List.tail_cons]
    exact readParts_segments h

/-- **A body is what was measured, and unambiguous where no content has the boundary.**  What is
accepted is written, unless memory runs out, and has the measured length.  Reading it by the rules
of multipart bodies gives the fields and the files back, in order, if and only if no value of a
field and no data of a file starts with `"--"` and the boundary or has it at the start of a
line. -/
theorem build_decodes {fields : List Field} {files : List File} {n : Nat}
    (h : measure fields files = .ok n) (heap : Heap) :
    (∃ body, buildMultipartBody heap fields files = some (.ok body) ∧ body.length = n ∧
        (decode body = some (partsOf fields files) ↔
          ∀ part ∈ partsOf fields files, Free delimiter (crlf ++ part.content))) ∨
      (buildMultipartBody heap fields files = some (.error .nomem) ∧
        ¬ ∀ size, heap.grants size = true) := by
  obtain ⟨hputs, hlength, hbound, hplain⟩ := measure_ok h
  rw [buildMultipartBody, h]
  simp only
  rcases hputs.appendSteps heap with ⟨buffer, hrun, hholds⟩ | ⟨⟨buffer, hrun⟩, hwhy⟩
  · left
    rw [hrun]
    refine ⟨bodyText (partsOf fields files), ?_, hlength.symm, decode_iff hplain⟩
    simp only [hholds.front]
    rw [if_neg]
    rw [hholds.len, hlength]
    exact not_not.mpr rfl
  · right
    rw [hrun]
    refine ⟨rfl, fun hall => ?_⟩
    have hlong := hwhy hall
    omega

/-- A field with the value `hello`, and a file. -/
def sampleFields : List Field := [⟨some (asciiText "a"), some (asciiText "hello")⟩]

def sampleFiles : List File :=
  [⟨some (asciiText "f"), some (asciiText "x.bin"), none, .bytes [0, 13, 10, 45, 45]⟩]

theorem build_decodes_sample :
    ∃ body, buildMultipartBody ⟨fun _ => true, fun _ => 0⟩ sampleFields sampleFiles =
        some (.ok body) ∧ body.length = 258 ∧ decode body = some (partsOf sampleFields sampleFiles) := by
  have hmeasure : measure sampleFields sampleFiles = .ok 258 := by decide +kernel
  rcases build_decodes hmeasure ⟨fun _ => true, fun _ => 0⟩ with hdone | ⟨-, hrefused⟩
  · obtain ⟨body, hbuild, hlength, hdecode⟩ := hdone
    exact ⟨body, hbuild, hlength, hdecode.mpr (by unfold Free; decide +kernel)⟩
  · exact absurd (fun _ => rfl) hrefused

/-- A value that ends its part and starts another one. -/
def injectingField : Field :=
  { name := some (asciiText "a")
    value := some (delimiter ++ (crlf ++ asciiText "Content-Disposition: form-data; name=\"b\"" ++
      (crlf ++ (crlf ++ asciiText "y")))) }

/-- A field is read as two. -/
theorem value_injects_part :
    ¬ ∀ fields files n heap body, measure fields files = .ok n →
      buildMultipartBody heap fields files = some (.ok body) →
        body.length = n ∧ decode body = some (partsOf fields files) := by
  intro hall
  have hmeasure : measure [injectingField] [] = .ok 191 := by decide +kernel
  have hbuild : buildMultipartBody ⟨fun _ => true, fun _ => 0⟩ [injectingField] [] =
      some (.ok (bodyText (partsOf [injectingField] []))) := by decide +kernel
  have hdecode : decode (bodyText (partsOf [injectingField] [])) ≠
      some (partsOf [injectingField] []) := by decide +kernel
  exact hdecode (hall _ _ _ _ _ hmeasure hbuild).2

end Dcc.Rest.Multipart
