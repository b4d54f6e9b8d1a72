import Dcc.HotReload.Pipe
import Dcc.Lib.Reach

/-!
# Which answer a request takes

A request and its answer are matched by nothing but their place in the pipes.  As long as every
exchange begins with empty pipes and an idle worker, the bytes that it reads are the ones that
the worker wrote for it.  An exchange that timed out leaves a request or an answer in the pipes,
and the code begins the next one all the same.

* `Reads` — what a program makes of the bytes that it reads, compositional by `Reading.bind`;
* `reads_answer` — each request reads its own answer back;
* `inv_step` — what a step keeps of the exchange that holds the lock;
* `answers_paired` — so in every run in which exchanges begin in step, every answer is the
  worker's answer to that very request.
-/

namespace Dcc.HotReload

open Program (Always always_bind always_mono always_trivial)

/-! ## Programs that read -/

section Reads

variable {α β : Type} {bad : α → Prop} {good : α → Bytes → Prop}

/-- A program that reads some bytes, all of them in order, has a good value; where a read or an
allocation fails it has a bad one in the end. -/
def Reads (bad : α → Prop) (good : α → Bytes → Prop) : Io α → Bytes → Prop
  | .ret a, input => good a input
  | .call (.read size) next, input =>
    (∀ errno, (next (.error errno)).Always bad) ∧
      (size ≤ input.length → Reads bad good (next (.ok (input.take size))) (input.drop size))
  | .call (.allocate _) next, input => (next false).Always bad ∧ Reads bad good (next true) input
  | .call (.write _) _, _ => False
  | .call (.handle _) _, _ => False
  | .call .generation _, _ => False

/-- A program that reads: its value is good where it gets the bytes that it asks for, and a bad one
where a read or an allocation fails.  It asks for no more bytes than there are where it reads a
`whole`. -/
def Reading (whole : Prop) (bad : α → Prop) (good : α → Bytes → Prop) : Io α → Bytes → Prop
  | .ret a, input => good a input
  | .call (.read size) next, input =>
    (∀ errno, (next (.error errno)).Always bad) ∧ (whole → size ≤ input.length) ∧
      (size ≤ input.length →
        Reading whole bad good (next (.ok (input.take size))) (input.drop size))
  | .call (.allocate _) next, input =>
    (next false).Always bad ∧ Reading whole bad good (next true) input
  | .call (.write _) _, _ => False
  | .call (.handle _) _, _ => False
  | .call .generation _, _ => False

/-- Reading with one program and then with another one. -/
theorem Reading.bind {whole : Prop} {bad : β → Prop} {good : β → Bytes → Prop} {p : Io α}
    {f : α → Io β} {input : Bytes}
    (h : Reading whole (fun a => (f a).Always bad) (fun a rest => Reading whole bad good (f a) rest)
      p input) :
    Reading whole bad good (p.bind f) input := by
  induction p generalizing input with
  | ret a => exact h
  | call call next ih =>
    cases call with
    | read size =>
      obtain ⟨hfail, hwhole, hread⟩ := h
      exact ⟨fun errno => always_bind (hfail errno), hwhole, fun hsize => ih _ (hread hsize)⟩
    | allocate size => exact ⟨always_bind h.1, ih _ h.2⟩
    | _ => exact h.elim

theorem Reading.mono {whole : Prop} {bad' : α → Prop} {good' : α → Bytes → Prop} {p : Io α}
    {input : Bytes} (h : Reading whole bad good p input) (hbad : ∀ a, bad a → bad' a)
    (hgood : ∀ a rest, good a rest → good' a rest) : Reading whole bad' good' p input := by
  induction p generalizing input with
  | ret a => exact hgood a input h
  | call call next ih =>
    cases call with
    | read size =>
      obtain ⟨hfail, hwhole, hread⟩ := h
      exact ⟨fun errno => always_mono hbad (hfail errno), hwhole, fun hsize => ih _ (hread hsize)⟩
    | allocate size => exact ⟨always_mono hbad h.1, ih _ h.2⟩
    | _ => exact h.elim

theorem Reading.reads {whole : Prop} {p : Io α} {input : Bytes}
    (h : Reading whole bad good p input) : Reads bad good p input := by
  induction p generalizing input with
  | ret a => exact h
  | call call next ih =>
    cases call with
    | read size => exact ⟨h.1, fun hsize => ih _ (h.2.2 hsize)⟩
    | allocate size => exact ⟨h.1, ih _ h.2⟩
    | _ => exact h.elim

theorem ioStep_read {size : Nat} {next : Except Errno Bytes → Io α} {rest : Io α}
    {outcome : IoOutcome} {input written : Bytes} {taken : Nat}
    (hstep : ioStep (.call (.read size) next) outcome input = some (rest, taken, written)) :
    written = [] ∧ ((outcome = .done ∧ size ≤ input.length ∧ rest = next (.ok (input.take size)) ∧
          taken = size) ∨
        ∃ errno moved, outcome = .failed errno moved ∧ rest = next (.error errno)) := by
  cases outcome with
  | done =>
    simp only [ioStep, Option.ite_none_right_eq_some] at hstep
    obtain ⟨hsize, hstep⟩ := hstep
    cases hstep
    exact ⟨rfl, Or.inl ⟨rfl, hsize, rfl, rfl⟩⟩
  | failed errno moved =>
    simp only [ioStep, Option.ite_none_right_eq_some] at hstep
    obtain ⟨-, hstep⟩ := hstep
    cases hstep
    exact ⟨rfl, Or.inr ⟨errno, _, rfl, rfl⟩⟩
  | _ => cases hstep

theorem ioStep_write {data : Bytes} {next : Except Errno Unit → Io α} {rest : Io α}
    {outcome : IoOutcome} {input written : Bytes} {taken : Nat}
    (hstep : ioStep (.call (.write data) next) outcome input = some (rest, taken, written)) :
    taken = 0 ∧ ((outcome = .done ∧ rest = next (.ok ()) ∧ written = data) ∨
        ∃ errno moved, outcome = .failed errno moved ∧ rest = next (.error errno) ∧
          written = data.take moved) := by
  cases outcome with
  | done =>
    cases hstep
    exact ⟨rfl, Or.inl ⟨rfl, rfl, rfl⟩⟩
  | failed errno moved =>
    cases hstep
    exact ⟨rfl, Or.inr ⟨errno, moved, rfl, rfl, rfl⟩⟩
  | _ => cases hstep

theorem ioStep_allocate {size : Nat} {next : Bool → Io α} {rest : Io α} {outcome : IoOutcome}
    {input written : Bytes} {taken : Nat}
    (hstep : ioStep (.call (.allocate size) next) outcome input = some (rest, taken, written)) :
    taken = 0 ∧ written = [] ∧ ∃ success, outcome = .allocated success ∧ rest = next success := by
  cases outcome with
  | allocated success =>
    cases hstep
    exact ⟨rfl, rfl, success, rfl, rfl⟩
  | _ => cases hstep

theorem always_step {p rest : Io α} {outcome : IoOutcome} {input written : Bytes} {taken : Nat}
    (h : p.Always bad) (hstep : ioStep p outcome input = some (rest, taken, written)) :
    rest.Always bad := by
  cases p with
  | ret a => cases hstep
  | call call next =>
    cases call <;> cases outcome <;>
      simp only [ioStep, Option.ite_none_right_eq_some] at hstep <;> grind [Always]

/-- **A call of a program that reads** takes what there is of its bytes, or spoils its value. -/
theorem reads_step {p rest : Io α} {outcome : IoOutcome} {input later written : Bytes} {taken : Nat}
    (h : Reads bad good p (input ++ later))
    (hstep : ioStep p outcome input = some (rest, taken, written)) :
    written = [] ∧ (rest.Always bad ∨ Reads bad good rest (input.drop taken ++ later)) := by
  cases p with
  | ret a => cases hstep
  | call call next =>
    cases call with
    | read size =>
      obtain ⟨hfail, hread⟩ := h
      obtain ⟨rfl, ⟨rfl, hsize, rfl, rfl⟩ | ⟨errno, moved, rfl, rfl⟩⟩ := ioStep_read hstep
      · have hread := hread (by rw [List.length_append]; omega)
        rw [List.take_append_of_le_length hsize, List.drop_append_of_le_length hsize] at hread
        exact ⟨rfl, Or.inr hread⟩
      · exact ⟨rfl, Or.inl (hfail errno)⟩
    | allocate size =>
      obtain ⟨rfl, rfl, success, rfl, rfl⟩ := ioStep_allocate hstep
      cases success with
      | true => exact ⟨rfl, Or.inr h.2⟩
      | false => exact ⟨rfl, Or.inl h.1⟩
    | _ => exact h.elim

end Reads

/-! ## The answer of the worker -/

/-- The bytes of some entries, up to the first one that is refused. -/
def entriesBytes : List RestEntry → Bytes
  | [] => []
  | entry :: items =>
    if restRefused entry.method.length entry.path.length entry.contentType.length
        entry.body.length then []
    else (restPieces entry).flatten ++ entriesBytes items

/-- The bytes of the worker's answer to a request. -/
def answerBytes : (request : Request) → request.Reply → Bytes
  | .event _, result =>
    if maxRestCount < result.items.length then []
    else [headerBytes .eventResult 8, resultBytes result].flatten ++ entriesBytes result.items
  | .health, generation => [headerBytes .healthResult 16, healthBytes generation].flatten

/-- A program that returns an error. -/
def Failed {ε α : Type} (a : Except ε α) : Prop := ∃ e, a = .error e

@[simp] theorem failed_error {ε α : Type} (e : ε) : Failed (.error e : Except ε α) := ⟨e, rfl⟩

theorem length_headerBytes (message : Message) (size : Nat) :
    (headerBytes message size).length = 12 := by
  simp [headerBytes]

theorem parseHeader_headerBytes (message : Message) {size : Nat} (hsize : size < 256 ^ 4) :
    parseHeader (headerBytes message size) = .ok { kind := message.kind, size } := by
  have hkind : message.kind < 256 ^ 2 := by cases message <;> decide
  have hmagic : field (headerBytes message size) 0 4 = magic := field_append_left (by decide) _
  have hversion : field (headerBytes message size) 4 2 = version := by
    rw [headerBytes, field_append_right _ _ _ (by decide), field_append_left (by decide)]
  have hkind' : field (headerBytes message size) 6 2 = message.kind := by
    rw [headerBytes, field_append_right _ _ _ (by decide), field_append_right _ _ _ (by decide),
      field_append_left hkind]
  have hsize' : field (headerBytes message size) 8 4 = size := by
    rw [headerBytes, field_append_right _ _ _ (by decide), field_append_right _ _ _ (by decide),
      field_append_right _ _ _ (by decide), field_last hsize]
  simp [parseHeader, hmagic, hversion, hkind', hsize']

theorem reading_readHeader {whole : Prop} (message : Message) {size : Nat} (hsize : size < 256 ^ 4)
    (rest : Bytes) :
    Reading whole Failed (fun r rest' => r = .ok { kind := message.kind, size } ∧ rest' = rest)
      readHeader (headerBytes message size ++ rest) := by
  refine ⟨fun errno => ⟨errno, rfl⟩, fun _ => ?_, fun _ => ?_⟩
  · rw [List.length_append, length_headerBytes]
    exact Nat.le_add_right _ _
  rw [List.take_left' (length_headerBytes message size),
    List.drop_left' (length_headerBytes message size)]
  exact ⟨parseHeader_headerBytes message hsize, rfl⟩

theorem reading_readText {whole : Prop} {text : Bytes} (h : text.length ≤ maxBodyLen)
    (rest : Bytes) :
    Reading whole Failed (fun r rest' => r = .ok text ∧ rest' = rest) (readText text.length)
      (text ++ rest) := by
  have hword : ¬ wordMax - 1 < text.length := by
    have hlarge : maxBodyLen < wordMax - 1 := by decide
    omega
  rw [readText, if_neg hword]
  refine ⟨⟨.noMem, rfl⟩, ?_⟩
  by_cases hempty : text.length = 0
  · rw [List.length_eq_zero_iff] at hempty
    subst hempty
    exact ⟨rfl, rfl⟩
  · simp only [if_true, ne_eq, hempty, not_false_eq_true]
    refine ⟨fun errno => ⟨errno, rfl⟩, fun _ => ?_, fun _ => ?_⟩
    · rw [List.length_append]
      exact Nat.le_add_right _ _
    · exact ⟨by rw [List.take_left], by rw [List.drop_left]⟩

theorem length_restBytes (entry : RestEntry) : (restBytes entry).length = 24 := by
  simp [restBytes]

/-- An entry reads back. -/
theorem reading_readRestEntry {whole : Prop} {entry : RestEntry}
    (h : restRefused entry.method.length entry.path.length entry.contentType.length
      entry.body.length = false) (rest : Bytes) :
    Reading whole Failed (fun r rest' => r = .ok entry ∧ rest' = rest) readRestEntry
      ((restPieces entry).flatten ++ rest) := by
  have hmax : maxMethodLen = 32 ∧ maxPathLen = 8192 ∧ maxContentTypeLen = 128 ∧
      maxBodyLen = 16777216 := ⟨rfl, rfl, rfl, rfl⟩
  have hbounds := h
  simp only [restRefused, Bool.or_eq_false_iff, decide_eq_false_iff_not, Nat.not_lt] at hbounds
  obtain ⟨⟨⟨⟨-, hmethod⟩, hpath⟩, hcontentType⟩, hbody⟩ := hbounds
  have hfield0 : field (restBytes entry) 0 4 = entry.method.length :=
    field_append_left (by omega) _
  have hfield4 : field (restBytes entry) 4 4 = entry.path.length := by
    rw [restBytes, field_append_right _ _ _ (by decide), field_append_left (by omega)]
  have hfield8 : field (restBytes entry) 8 4 = entry.contentType.length := by
    rw [restBytes, field_append_right _ _ _ (by decide), field_append_right _ _ _ (by decide),
      field_append_left (by omega)]
  have hfield16 : field (restBytes entry) 16 8 = entry.body.length := by
    rw [restBytes, field_append_right _ _ _ (by decide), field_append_right _ _ _ (by decide),
      field_append_right _ _ _ (by decide), field_append_right _ _ _ (by decide),
      field_last (by omega)]
  have hsplit : (restPieces entry).flatten ++ rest = restBytes entry ++ (entry.method ++
      (entry.path ++ (entry.contentType ++ (entry.body ++ rest)))) := by
    simp [restPieces]
  rw [hsplit]
  refine ⟨fun errno => ⟨_, rfl⟩, fun _ => ?_, fun _ => ?_⟩
  · rw [List.length_append, length_restBytes]
    exact Nat.le_add_right _ _
  rw [List.take_left' (length_restBytes entry), List.drop_left' (length_restBytes entry)]
  simp only [Program.ret_bind, hfield0, hfield4, hfield8, hfield16, h, Bool.false_eq_true, if_false]
  refine Reading.bind ((reading_readText (by omega) _).mono ?_ ?_)
  · intro method hfailed
    obtain ⟨errno, rfl⟩ := hfailed
    exact always_bind (always_trivial (fun path => always_bind (always_trivial (fun contentType =>
      always_bind (always_trivial (fun body => ⟨_, rfl⟩) _)) _)) _)
  intro method rest' hread
  obtain ⟨rfl, rfl⟩ := hread
  refine Reading.bind ((reading_readText (by omega) _).mono ?_ ?_)
  · intro path hfailed
    obtain ⟨errno, rfl⟩ := hfailed
    exact always_bind (always_trivial (fun contentType =>
      always_bind (always_trivial (fun body => ⟨_, rfl⟩) _)) _)
  intro path rest' hread
  obtain ⟨rfl, rfl⟩ := hread
  refine Reading.bind ((reading_readText (by omega) _).mono ?_ ?_)
  · intro contentType hfailed
    obtain ⟨errno, rfl⟩ := hfailed
    exact always_bind (always_trivial (fun body => ⟨_, rfl⟩) _)
  intro contentType rest' hread
  obtain ⟨rfl, rfl⟩ := hread
  refine Reading.bind ((reading_readText (by omega) _).mono ?_ ?_)
  · intro body hfailed
    obtain ⟨errno, rfl⟩ := hfailed
    exact ⟨_, rfl⟩
  intro body rest' hread
  obtain ⟨rfl, rfl⟩ := hread
  exact ⟨rfl, rfl⟩

/-- An entry that the two parties accept. -/
def RestEntry.Accepted (entry : RestEntry) : Prop :=
  restRefused entry.method.length entry.path.length entry.contentType.length entry.body.length =
    false

theorem reading_readRestEntries {whole : Prop} {items : List RestEntry} {rest : Bytes}
    (h : (∀ entry ∈ items, entry.Accepted) ∨ (rest = [] ∧ ¬ whole)) (acc : List RestEntry) :
    Reading whole Failed (fun r rest' => r = .ok (acc ++ items) ∧ rest' = rest)
      (readRestEntries items.length acc) (entriesBytes items ++ rest) := by
  induction items generalizing acc with
  | nil => exact ⟨by rw [List.append_nil], rfl⟩
  | cons entry items ih =>
    cases hrefused : restRefused entry.method.length entry.path.length entry.contentType.length
        entry.body.length with
    | true =>
      -- the worker stops here, and the entry is never read
      have hshort : rest = [] ∧ ¬ whole := by
        rcases h with haccepted | hshort
        · have haccepted := haccepted entry List.mem_cons_self
          rw [RestEntry.Accepted, hrefused] at haccepted
          cases haccepted
        · exact hshort
      obtain ⟨rfl, hwhole⟩ := hshort
      simp only [entriesBytes, hrefused, if_true, List.append_nil]
      exact ⟨fun errno => ⟨_, rfl⟩, fun h => absurd h hwhole, fun hsize => absurd hsize (by simp)⟩
    | false =>
      simp only [entriesBytes, hrefused, Bool.false_eq_true, if_false, List.append_assoc]
      refine Reading.bind ((reading_readRestEntry hrefused _).mono ?_ ?_)
      · intro read hfailed
        obtain ⟨status, rfl⟩ := hfailed
        exact ⟨_, rfl⟩
      · intro read rest' hread
        obtain ⟨rfl, rfl⟩ := hread
        have htail : (∀ entry ∈ items, entry.Accepted) ∨ (rest = [] ∧ ¬ whole) :=
          h.imp_left fun haccepted entry hentry =>
            haccepted entry (List.mem_cons_of_mem _ hentry)
        have hrest := ih htail (acc ++ [entry])
        rwa [List.append_assoc] at hrest

/-- **A result set reads back**, as far as the worker writes it. -/
theorem reading_resultSetRead {whole : Prop} {result : ResultSet} {rest : Bytes}
    (hmany : result.items.length ≤ maxRestCount)
    (h : (∀ entry ∈ result.items, entry.Accepted) ∨ (rest = [] ∧ ¬ whole)) :
    Reading whole Failed (fun r rest' => r = .ok result ∧ rest' = rest) resultSetRead
      (headerBytes .eventResult 8 ++
        (resultBytes result ++ (entriesBytes result.items ++ rest))) := by
  have hcount : result.items.length ≤ 128 := hmany
  have hlength : (resultBytes result).length = 8 := by simp [resultBytes]
  have hstatus : field (resultBytes result) 0 4 = result.status.toNat :=
    field_append_left result.status.toNat_lt _
  have hitems : field (resultBytes result) 4 4 = result.items.length := by
    rw [resultBytes, field_append_right _ _ _ (by decide), field_last (by omega)]
  refine Reading.bind ((reading_readHeader .eventResult (by decide) _).mono ?_ ?_)
  · intro header hfailed
    obtain ⟨errno, rfl⟩ := hfailed
    exact ⟨_, rfl⟩
  intro header rest' hread
  obtain ⟨rfl, rfl⟩ := hread
  refine ⟨fun errno => ⟨_, rfl⟩, fun _ => ?_, fun _ => ?_⟩
  · rw [List.length_append, hlength]
    exact Nat.le_add_right _ _
  rw [List.take_left' hlength, List.drop_left' hlength]
  simp only [Program.ret_bind, hstatus, hitems, Nat.not_lt.mpr hmany, if_false, UInt32.ofNat_toNat]
  by_cases hnone : result.items.length = 0
  · rw [if_pos hnone]
    rw [List.length_eq_zero_iff] at hnone
    exact ⟨by rw [← hnone], by rw [hnone]; rfl⟩
  · rw [if_neg hnone]
    refine ⟨⟨_, rfl⟩, ?_⟩
    simp only [Program.ret_bind, if_true]
    refine Reading.bind ((reading_readRestEntries h []).mono ?_ ?_)
    · intro items hfailed
      obtain ⟨status, rfl⟩ := hfailed
      exact ⟨_, rfl⟩
    · intro items rest' hread
      obtain ⟨rfl, rfl⟩ := hread
      exact ⟨rfl, rfl⟩

theorem reading_answer (event : Event) (result : ResultSet) :
    Reading False Failed (fun r _ => r = .ok result) resultSetRead
      (answerBytes (.event event) result) := by
  by_cases hmany : maxRestCount < result.items.length
  · rw [answerBytes, if_pos hmany]
    exact ⟨fun errno => ⟨_, rfl⟩, False.elim, fun hsize => absurd hsize (by simp)⟩
  · have hsplit : answerBytes (.event event) result = headerBytes .eventResult 8 ++
          (resultBytes result ++ (entriesBytes result.items ++ [])) := by
      simp [answerBytes, hmany]
    rw [hsplit]
    exact (@reading_resultSetRead False result [] (by omega) (.inr ⟨rfl, not_false⟩)).mono
      (fun _ hbad => hbad) fun r rest' hread => hread.1

/-! ## Requests -/

/-- The writes of a request. -/
def Request.pieces : Request → List Bytes
  | .event e => eventPieces e
  | .health => [headerBytes .health 0]

/-- What a request does after its writes. -/
def Request.await : (request : Request) → Except Errno Unit → Io request.Answer
  | .event _ => awaitResult
  | .health => awaitHealth

variable {request : Request}

variable {program : Io request.Answer}

theorem program_eq (h : request.program = some program) :
    program = (writePieces request.pieces).bind request.await := by
  cases request with
  | event e =>
    rw [Request.program, Option.ite_none_right_eq_some] at h
    obtain ⟨-, hprogram⟩ := h
    cases hprogram
    rfl
  | health =>
    cases h
    rfl

theorem writeStatus_code_ne (errno : Errno) : (writeStatus errno).code ≠ Status.ok.code := by
  cases errno <;> decide

theorem await_error (request : Request) (errno : Errno) :
    (request.await (.error errno)).Always fun answer => request.taken answer = none := by
  cases request with
  | event e => rfl
  | health => exact if_neg (writeStatus_code_ne errno)

/-- **Each request reads its own answer back.** -/
theorem reads_answer (request : Request) (reply : request.Reply) :
    Reads (fun answer => request.taken answer = none)
      (fun answer _ => request.taken answer = some reply) (request.await (.ok ()))
      (answerBytes request reply) := by
  cases request with
  | event e =>
    refine Reading.reads ((reading_answer e reply).mono ?_ ?_)
    · intro answer hfailed
      obtain ⟨status, rfl⟩ := hfailed
      rfl
    · intro answer rest hread
      subst hread
      rfl
  | health =>
    have hgeneration : field (healthBytes reply) 0 8 = reply.toNat :=
      field_append_left reply.toNat_lt _
    have hstatus : field (healthBytes reply) 8 4 = Status.ok.code.toNat := by
      rw [healthBytes, field_append_right _ _ _ (by decide), field_append_left (by decide)]
    have hlength : (healthBytes reply).length = 16 := by simp [healthBytes]
    have hsplit : answerBytes .health reply =
        headerBytes .healthResult 16 ++ healthBytes reply := by
      simp [answerBytes]
    rw [hsplit]
    refine Reading.reads (@Reading.bind _ _ False _ _ _ _ _
      ((reading_readHeader .healthResult (by decide) _).mono ?_ ?_))
    · intro header hfailed
      obtain ⟨errno, rfl⟩ := hfailed
      exact if_neg (writeStatus_code_ne errno)
    intro header rest hread
    obtain ⟨rfl, rfl⟩ := hread
    refine ⟨fun errno => if_neg (writeStatus_code_ne errno), False.elim, fun _ => ?_⟩
    rw [List.take_of_length_le (by omega), List.drop_eq_nil_of_le (by omega)]
    simp only [Program.ret_bind, hgeneration, hstatus, UInt64.ofNat_toNat]
    by_cases hzero : reply = 0
    · simp [Reading, Request.taken, hzero]
    · simp [Reading, Request.taken, hzero]

/-! ## The worker's side -/

/-- A round that writes some bytes, as far as its writes succeed, and ends. -/
def Writes : Io Bool → Bytes → Prop
  | .ret _, out => out = []
  | .call (.write data) next, out =>
    (∀ errno, next (.error errno) = .ret false) ∧
      ∃ rest, out = data ++ rest ∧ Writes (next (.ok ())) rest
  | .call (.read _) _, _ => False
  | .call (.allocate _) _, _ => False
  | .call (.handle _) _, _ => False
  | .call .generation _, _ => False

/-- A round that reads a request, all of it, before it answers the request. -/
def Asks (request : Request) : Io Bool → Bytes → Prop
  | .ret again, _ => again = false
  | .call (.read size) next, input =>
    (∀ errno, next (.error errno) = .ret false) ∧
      (size ≤ input.length → Asks request (next (.ok (input.take size))) (input.drop size))
  | .call (.allocate _) next, input => next false = .ret false ∧ Asks request (next true) input
  | .call (.handle event) next, input =>
    request = .event event ∧ input = [] ∧
      ∀ result, Writes (next result) (answerBytes (.event event) result)
  | .call .generation next, input =>
    request = .health ∧ input = [] ∧
      ∀ generation, Writes (next generation) (answerBytes .health generation)
  | .call (.write _) _, _ => False

/-- A round that has nothing more to write. -/
def Silent : Io Bool → Prop
  | .ret _ => True
  | .call (.write data) next => data = [] ∧ ∀ reply, Silent (next reply)
  | .call (.read _) _ => False
  | .call (.allocate _) _ => False
  | .call (.handle _) _ => False
  | .call .generation _ => False

theorem writes_writePieces {f : Except Errno Unit → Io Bool} {out : Bytes}
    (hfail : ∀ errno, f (.error errno) = .ret false) (h : Writes (f (.ok ())) out)
    (pieces : List Bytes) : Writes ((writePieces pieces).bind f) (pieces.flatten ++ out) := by
  induction pieces with
  | nil => exact h
  | cons piece pieces ih =>
    refine ⟨hfail, pieces.flatten ++ out, ?_, ih⟩
    rw [List.flatten_cons, List.append_assoc]

theorem writes_sendRestEntries (items : List RestEntry) :
    Writes (sendRestEntries items) (entriesBytes items) := by
  induction items with
  | nil => rfl
  | cons entry items ih =>
    rw [sendRestEntries, entriesBytes]
    split
    · rfl
    · exact writes_writePieces (fun _ => rfl) ih _

theorem writes_captureSendResult (event : Event) (result : ResultSet) :
    Writes (captureSendResult result) (answerBytes (.event event) result) := by
  rw [captureSendResult, answerBytes]
  split
  · rfl
  · exact writes_writePieces (fun _ => rfl) (writes_sendRestEntries _) _

theorem asks_workerDispatchEvent (e : Event) :
    Asks (.event e) (workerDispatchEvent e.type e.shardId e.rawJson.length) e.rawJson := by
  refine ⟨rfl, fun errno => rfl, fun _ => ?_⟩
  rw [List.take_length, List.drop_length]
  exact ⟨rfl, rfl, fun result => writes_captureSendResult e result⟩

/-- **A round at its start asks for the request** that is in the pipe. -/
theorem asks_childFrame
    (h : request.program = some program) : Asks request childFrame request.pieces.flatten := by
  have hmax : maxEventJsonLen = 16777216 ∧ wordMax = 2 ^ 64 - 1 := ⟨rfl, rfl⟩
  have hlength := length_headerBytes
  cases request with
  | event e =>
    rw [Request.program, Option.ite_none_right_eq_some] at h
    obtain ⟨hsendable, -⟩ := h
    have hjson : e.rawJson.length ≤ maxEventJsonLen := by
      simp only [sendable, Bool.and_eq_true, decide_eq_true_eq] at hsendable
      exact hsendable.2
    have htype : field (eventBytes e) 0 4 = e.type.toNat := field_append_left e.type.toNat_lt _
    have hshard : field (eventBytes e) 4 4 = e.shardId.toNat := by
      rw [eventBytes, field_append_right _ _ _ (by decide), field_append_left e.shardId.toNat_lt]
    have hlen : field (eventBytes e) 8 8 = e.rawJson.length := by
      rw [eventBytes, field_append_right _ _ _ (by decide), field_append_right _ _ _ (by decide),
        field_last (by omega)]
    have hlengthEvent : (eventBytes e).length = 16 := by simp [eventBytes]
    have hsplit : (Request.event e).pieces.flatten =
        headerBytes .event 16 ++ (eventBytes e ++ e.rawJson) := by
      simp [Request.pieces, eventPieces]
    rw [hsplit]
    refine ⟨fun errno => rfl, fun _ => ?_⟩
    rw [List.take_left' (hlength _ _), List.drop_left' (hlength _ _)]
    simp only [parseHeader_headerBytes .event (by decide : 16 < 256 ^ 4), Program.ret_bind]
    refine ⟨fun errno => rfl, fun _ => ?_⟩
    rw [List.take_left' hlengthEvent, List.drop_left' hlengthEvent]
    simp only [Program.ret_bind, htype, hshard, hlen, UInt32.ofNat_toNat]
    split
    · rfl
    · exact asks_workerDispatchEvent e
  | health =>
    have hsplit : Request.health.pieces.flatten = headerBytes .health 0 ++ [] := rfl
    rw [hsplit]
    refine ⟨fun errno => rfl, fun _ => ?_⟩
    rw [List.take_left' (hlength _ _), List.drop_left' (hlength _ _)]
    simp only [parseHeader_headerBytes .health (by decide : 0 < 256 ^ 4), Program.ret_bind]
    refine ⟨rfl, rfl, fun generation => ?_⟩
    have hwrites : ∀ f : Except Errno Unit → Io Bool, (∀ errno, f (.error errno) = .ret false) →
        f (.ok ()) = .ret true →
        Writes ((writePieces [headerBytes .healthResult 16, healthBytes generation]).bind f)
          ([headerBytes .healthResult 16, healthBytes generation].flatten ++ []) := by
      intro f hfail hok
      exact writes_writePieces hfail (by rw [hok]; rfl) _
    rw [List.append_nil] at hwrites
    exact hwrites _ (fun _ => rfl) rfl

/-! ## The exchange that holds the lock -/

/-- The bytes in the pipe to the worker. -/
def Link.pending (link : Link) : Bytes := link.toChild.map Prod.snd

/-- The worker before it answers a request, with the bytes that it has not read. -/
def Receiving (number : Nat) (request : Request) (child : Child) (input : Bytes) : Prop :=
  (Silent child.rest ∧ Asks request childFrame input) ∨
    ((child = .start ∨ child.frame = some number) ∧ Asks request child.rest input)

/-- The worker while it answers a request, with the bytes of the answer that it has not
written. -/
def Answering (child : Child) (later : Bytes) : Prop := child = .start ∨ Writes child.rest later

/-- What holds of the exchange with the lock. -/
inductive Paired (link : Link) (exchange : Exchange) : Prop
  /-- It takes no answer any more. -/
  | failing (hrest : exchange.rest.Always fun answer => exchange.request.taken answer = none)
  /-- The worker has not answered, and gets the request and nothing else. -/
  | asking (pieces : List Bytes)
      (hrest : exchange.rest = (writePieces pieces).bind exchange.request.await)
      (hpieces : ∀ piece ∈ pieces, piece ≠ []) (hfrom : link.fromChild = [])
      (hchild : ∀ child, link.child = some child → (∀ b ∈ link.toChild, b.1 = exchange.number) ∧
        Receiving exchange.number exchange.request child (link.pending ++ pieces.flatten))
  /-- The worker has an answer, and its bytes are the ones that are read. -/
  | answering (reply : exchange.request.Reply) (later : Bytes)
      (hhandled : ⟨exchange.number, exchange.request, reply⟩ ∈ link.handled)
      (hrest : Reads (fun answer => exchange.request.taken answer = none)
        (fun answer _ => exchange.request.taken answer = some reply) exchange.rest
        (link.fromChild ++ later))
      (hchild : ∀ child, link.child = some child → link.toChild = [] ∧ Answering child later)

/-- What holds between steps. -/
structure Inv (link : Link) : Prop where
  /-- Every answer that was taken is the worker's answer to that request. -/
  results : ∀ answered ∈ link.results, answered ∈ link.handled
  exchange : ∀ exchange, link.exchange = some exchange → Paired link exchange

/-- Empty pipes, and a worker that has nothing left to do. -/
def Synced (link : Link) : Prop :=
  link.fromChild = [] ∧
    ∀ child, link.child = some child → link.toChild = [] ∧ (child = .start ∨ Silent child.rest)

/-- An exchange begins in step. -/
def InStep (link : Link) : Move → Prop
  | .begin request => link.exchange = none → request.program ≠ none → Synced link
  | _ => True

theorem pieces_ne_nil
    (h : request.program = some program) : ∀ piece ∈ request.pieces, piece ≠ [] := by
  have hheader : ∀ message size, headerBytes message size ≠ [] := by
    intro message size hnil
    have hlength := length_headerBytes message size
    rw [hnil] at hlength
    cases hlength
  cases request with
  | event e =>
    rw [Request.program, Option.ite_none_right_eq_some] at h
    obtain ⟨hsendable, -⟩ := h
    have hjson : e.rawJson ≠ [] := by
      intro hnil
      simp [sendable, hnil] at hsendable
    have hevent : eventBytes e ≠ [] := by
      intro hnil
      have hlength : (eventBytes e).length = 16 := by simp [eventBytes]
      rw [hnil] at hlength
      cases hlength
    simpa [Request.pieces, eventPieces] using ⟨hheader .event 16, hevent, hjson⟩
  | health => simpa [Request.pieces] using hheader .health 0

variable {link : Link}

theorem inv_begin (h : Inv link)
    (hsync : InStep link (.begin request)) : Inv (link.step (.begin request)) := by
  cases hexchange : link.exchange with
  | some exchange => simpa [Link.step, hexchange] using h
  | none =>
    cases hprogram : request.program with
    | none => simpa [Link.step, hexchange, hprogram] using h
    | some program =>
      obtain ⟨hfrom, hchild⟩ := hsync hexchange (by simp [hprogram])
      have hstep : link.step (.begin request) =
          { link with exchange := some { number := link.count, request, rest := program }
                      count := link.count + 1 } := by
        simp [Link.step, hexchange, hprogram]
      rw [hstep]
      refine ⟨h.results, fun exchange hex => ?_⟩
      cases hex
      refine .asking request.pieces (program_eq hprogram) (pieces_ne_nil hprogram) hfrom ?_
      intro child hsome
      obtain ⟨hto, hidle⟩ := hchild child hsome
      refine ⟨by simp [hto], ?_⟩
      have hasks : Asks request childFrame (link.pending ++ request.pieces.flatten) := by
        simpa [Link.pending, hto] using asks_childFrame hprogram
      rcases hidle with hstart | hsilent
      · subst hstart
        exact Or.inr ⟨Or.inl rfl, hasks⟩
      · exact Or.inl ⟨hsilent, hasks⟩

variable {written : Bytes}

theorem await_step {outcome : IoOutcome} {rest : Io request.Answer} {taken : Nat}
    (hstep : ioStep (request.await (.ok ())) outcome [] = some (rest, taken, written)) :
    rest.Always fun answer => request.taken answer = none := by
  cases request with
  | event e =>
    cases outcome with
    | failed errno moved =>
      simp only [Request.await, awaitResult, resultSetRead, readHeader, io, Program.bind_eq,
        Program.perform_bind, Program.call_bind, ioStep, Option.ite_none_right_eq_some] at hstep
      obtain ⟨-, hstep⟩ := hstep
      cases hstep
      rfl
    | done => simp [Request.await, awaitResult, resultSetRead, readHeader, ioStep] at hstep
    | _ => cases hstep
  | health =>
    cases outcome with
    | failed errno moved =>
      simp only [Request.await, awaitHealth, readHeader, io, Program.bind_eq,
        Program.perform_bind, Program.call_bind, ioStep, Option.ite_none_right_eq_some] at hstep
      obtain ⟨-, hstep⟩ := hstep
      cases hstep
      exact if_neg (writeStatus_code_ne errno)
    | done => simp [Request.await, awaitHealth, readHeader, ioStep] at hstep
    | _ => cases hstep

variable {exchange : Exchange}

/-- **A call of the exchange.** -/
theorem paired_parent {outcome : IoOutcome} {rest : Io exchange.request.Answer} {taken : Nat}
    (h : Paired link exchange)
    (hstep : ioStep exchange.rest outcome link.fromChild = some (rest, taken, written)) :
    Paired
      { link with exchange := some { exchange with rest }
                  fromChild := link.fromChild.drop taken
                  toChild := link.toChild ++ written.map (Prod.mk exchange.number) }
      { exchange with rest } := by
  cases h with
  | failing hrest => exact .failing (always_step hrest hstep)
  | asking pieces hrest hpieces hfrom hchild =>
    rw [hrest, hfrom] at hstep
    cases pieces with
    | nil => exact .failing (await_step hstep)
    | cons piece pieces =>
      cases outcome with
      | done =>
        cases hstep
        refine .asking pieces rfl (fun p hp => hpieces p (List.mem_cons_of_mem _ hp))
          (by simp [hfrom]) ?_
        intro child hsome
        obtain ⟨htags, hreceiving⟩ := hchild child hsome
        refine ⟨?_, by simpa [Link.pending, Function.comp_def] using hreceiving⟩
        intro b hb
        rcases List.mem_append.mp hb with hb | hb
        · exact htags b hb
        · obtain ⟨byte, -, rfl⟩ := List.mem_map.mp hb
          rfl
      | failed errno moved =>
        cases hstep
        exact .failing (await_error exchange.request errno)
      | _ => cases hstep
  | answering reply later hhandled hrest hchild =>
    obtain ⟨rfl, hrest⟩ := reads_step hrest hstep
    rcases hrest with hfailing | hreads
    · exact .failing hfailing
    · refine .answering reply later hhandled hreads ?_
      intro child hsome
      simpa using hchild child hsome

/-! ## What the worker does to the exchange -/

variable {rest : Io Bool}

variable {child : Child}

theorem next_cases {frame : Option Nat} (h : Child.next frame rest = some child) :
    (rest = .ret true ∧ child = .start) ∨ (rest ≠ .ret false ∧ child = { frame, rest }) := by
  cases rest with
  | ret again =>
    cases again with
    | true =>
      cases h
      exact Or.inl ⟨rfl, rfl⟩
    | false => cases h
  | call call next =>
    cases h
    exact Or.inr ⟨by simp, rfl⟩

theorem silent_step {outcome : IoOutcome} {input written : Bytes}
    {taken : Nat} (h : Silent child.rest)
    (hstep : ioStep child.rest outcome input = some (rest, taken, written)) :
    Silent rest ∧ taken = 0 ∧ written = [] ∧ handledBy child outcome = [] := by
  obtain ⟨frame, p⟩ := child
  cases p with
  | ret again => cases hstep
  | call call next =>
    cases call with
    | write data =>
      obtain ⟨rfl, hnext⟩ := h
      have hhandled : handledBy ⟨frame, .call (.write []) next⟩ outcome = [] := by
        cases frame <;> rfl
      obtain ⟨rfl, ⟨rfl, rfl, rfl⟩ | ⟨errno, moved, rfl, rfl, rfl⟩⟩ := ioStep_write hstep
      · exact ⟨hnext _, rfl, rfl, hhandled⟩
      · exact ⟨hnext _, rfl, List.take_nil, hhandled⟩
    | _ => exact h.elim

theorem writes_step {outcome : IoOutcome}
    {input written later : Bytes} {taken : Nat} (h : Writes child.rest later)
    (hstep : ioStep child.rest outcome input = some (rest, taken, written)) :
    taken = 0 ∧ handledBy child outcome = [] ∧
      ∃ later', later = written ++ later' ∧ (rest = .ret false ∨ Writes rest later') := by
  obtain ⟨frame, p⟩ := child
  cases p with
  | ret again => cases hstep
  | call call next =>
    cases call with
    | write data =>
      obtain ⟨hfail, later', rfl, hnext⟩ := h
      have hhandled : handledBy ⟨frame, .call (.write data) next⟩ outcome = [] := by
        cases frame <;> rfl
      obtain ⟨rfl, ⟨rfl, rfl, rfl⟩ | ⟨errno, moved, rfl, rfl, rfl⟩⟩ := ioStep_write hstep
      · exact ⟨rfl, hhandled, later', rfl, Or.inr hnext⟩
      · refine ⟨rfl, hhandled, data.drop moved ++ later', ?_, Or.inl (hfail errno)⟩
        rw [← List.append_assoc, List.take_append_drop]
    | _ => exact h.elim

/-- **A call of a round that reads a request**: the round goes on, or ends, or has the answer. -/
theorem asks_step {number : Nat} {outcome : IoOutcome} {input later written : Bytes} {taken : Nat}
    (h : Asks request child.rest (input ++ later))
    (hframe : child = .start ∨ child.frame = some number)
    (hstep : ioStep child.rest outcome input = some (rest, taken, written)) :
    written = [] ∧ ((handledBy child outcome = [] ∧
          (rest = .ret false ∨ Asks request rest (input.drop taken ++ later))) ∨
        (input = [] ∧ later = [] ∧ ∃ reply, Writes rest (answerBytes request reply) ∧
          handledBy child outcome = [⟨number, request, reply⟩])) := by
  obtain ⟨frame, p⟩ := child
  cases p with
  | ret again => cases hstep
  | call call next =>
    cases call with
    | read size =>
      obtain ⟨hfail, hread⟩ := h
      have hhandled : handledBy ⟨frame, .call (.read size) next⟩ outcome = [] := by
        cases frame <;> rfl
      obtain ⟨rfl, ⟨rfl, hsize, rfl, rfl⟩ | ⟨errno, moved, rfl, rfl⟩⟩ := ioStep_read hstep
      · have hread := hread (by rw [List.length_append]; omega)
        rw [List.take_append_of_le_length hsize, List.drop_append_of_le_length hsize] at hread
        exact ⟨rfl, Or.inl ⟨hhandled, Or.inr hread⟩⟩
      · exact ⟨rfl, Or.inl ⟨hhandled, Or.inl (hfail errno)⟩⟩
    | allocate size =>
      have hhandled : handledBy ⟨frame, .call (.allocate size) next⟩ outcome = [] := by
        cases frame <;> rfl
      obtain ⟨rfl, rfl, success, rfl, rfl⟩ := ioStep_allocate hstep
      refine ⟨rfl, Or.inl ⟨hhandled, ?_⟩⟩
      cases success with
      | true => exact Or.inr h.2
      | false => exact Or.inl h.1
    | handle event =>
      obtain ⟨rfl, hinput, hwrites⟩ := h
      obtain ⟨rfl, rfl⟩ := List.append_eq_nil_iff.mp hinput
      have hnumber : frame = some number :=
        hframe.resolve_left (by simp [Child.start, childFrame, readHeader])
      subst hnumber
      cases outcome with
      | answered result =>
        cases hstep
        exact ⟨rfl, Or.inr ⟨rfl, rfl, result, hwrites result, rfl⟩⟩
      | _ => cases hstep
    | generation =>
      obtain ⟨rfl, hinput, hwrites⟩ := h
      obtain ⟨rfl, rfl⟩ := List.append_eq_nil_iff.mp hinput
      have hnumber : frame = some number :=
        hframe.resolve_left (by simp [Child.start, childFrame, readHeader])
      subst hnumber
      cases outcome with
      | generation generation =>
        cases hstep
        exact ⟨rfl, Or.inr ⟨rfl, rfl, generation, hwrites generation, rfl⟩⟩
      | _ => cases hstep
    | write data => exact h.elim

theorem start_step {outcome : IoOutcome} {input written : Bytes} {taken : Nat}
    (hstep : ioStep childFrame outcome input = some (rest, taken, written)) :
    written = [] ∧ (rest = .ret false ∨ (taken = 12 ∧ 12 ≤ input.length)) := by
  cases outcome with
  | done =>
    simp only [childFrame, readHeader, io, Program.bind_eq, Program.perform_bind,
      Program.call_bind, ioStep, Option.ite_none_right_eq_some] at hstep
    obtain ⟨hsize, hstep⟩ := hstep
    cases hstep
    exact ⟨rfl, Or.inr ⟨rfl, hsize⟩⟩
  | failed errno moved =>
    simp only [childFrame, readHeader, io, Program.bind_eq, Program.perform_bind,
      Program.call_bind, ioStep, Option.ite_none_right_eq_some] at hstep
    obtain ⟨-, hstep⟩ := hstep
    cases hstep
    exact ⟨rfl, Or.inl rfl⟩
  | _ => cases hstep

theorem frame_of_take {bytes : List (Nat × UInt8)} {number taken : Nat}
    (htags : ∀ b ∈ bytes, b.1 = number) (hpos : 0 < taken) (hlen : taken ≤ bytes.length) :
    (bytes.take taken).head?.map Prod.fst = some number := by
  cases bytes with
  | nil => simp at hlen; omega
  | cons b bytes =>
    obtain ⟨taken, rfl⟩ := Nat.exists_eq_succ_of_ne_zero (Nat.pos_iff_ne_zero.mp hpos)
    simp [htags b List.mem_cons_self]

/-- **A call of the worker.** -/
theorem paired_child {outcome : IoOutcome} {taken : Nat} (h : Paired link exchange)
    (hsome : link.child = some child)
    (hstep : ioStep child.rest outcome link.pending = some (rest, taken, written)) :
    Paired
      { link with
        child := Child.next (child.frame.or ((link.toChild.take taken).head?.map Prod.fst)) rest
        toChild := link.toChild.drop taken
        fromChild := link.fromChild ++ written
        handled := link.handled ++ handledBy child outcome } exchange := by
  cases h with
  | failing hrest => exact .failing hrest
  | asking pieces hrest hpieces hfrom hchild =>
    obtain ⟨htags, hreceiving⟩ := hchild child hsome
    rcases hreceiving with ⟨hsilent, hasks⟩ | ⟨hframe, hasks⟩
    · obtain ⟨hsilent', rfl, rfl, -⟩ := silent_step hsilent hstep
      refine .asking pieces hrest hpieces (by simp [hfrom]) ?_
      intro child' hnext
      refine ⟨by simpa using htags, ?_⟩
      rcases next_cases hnext with ⟨-, rfl⟩ | ⟨-, rfl⟩
      · exact Or.inr ⟨Or.inl rfl, by simpa [Link.pending, Child.start] using hasks⟩
      · exact Or.inl ⟨hsilent', by simpa [Link.pending] using hasks⟩
    · obtain ⟨rfl, hcases⟩ := asks_step hasks hframe hstep
      rcases hcases with ⟨-, hrest'⟩ | ⟨hinput, hlater, reply, hwrites, hhandled⟩
      · refine .asking pieces hrest hpieces (by simp [hfrom]) ?_
        intro child' hnext
        refine ⟨fun b hb => htags b (List.mem_of_mem_drop hb), Or.inr ?_⟩
        rcases hrest' with rfl | hasks'
        · cases hnext
        · rcases next_cases hnext with ⟨rfl, -⟩ | ⟨hne, rfl⟩
          · cases hasks'
          · refine ⟨Or.inr ?_, by simpa [Link.pending] using hasks'⟩
            rcases hframe with rfl | hframe
            · obtain ⟨rfl, hlen⟩ := (start_step hstep).2.resolve_left hne
              rw [Child.start, Option.none_or]
              exact frame_of_take htags (by decide) (by simpa [Link.pending] using hlen)
            · rw [hframe]
              rfl
      · have hto : link.toChild = [] := List.map_eq_nil_iff.mp hinput
        have hnil : pieces = [] := by
          rw [List.flatten_eq_nil_iff] at hlater
          exact List.eq_nil_iff_forall_not_mem.mpr fun piece hp =>
            hpieces piece hp (hlater piece hp)
        subst hnil
        refine .answering reply (answerBytes exchange.request reply) ?_ ?_ ?_
        · rw [hhandled]
          exact List.mem_append_right _ List.mem_cons_self
        · rw [hrest, hfrom]
          exact reads_answer exchange.request reply
        · intro child' hnext
          refine ⟨by simp [hto], ?_⟩
          rcases next_cases hnext with ⟨-, rfl⟩ | ⟨-, rfl⟩
          · exact Or.inl rfl
          · exact Or.inr hwrites
  | answering reply later hhandled hrest hchild =>
    obtain ⟨hto, hanswering⟩ := hchild child hsome
    have hempty : link.pending = [] := by simp [Link.pending, hto]
    rcases hanswering with rfl | hwrites
    · -- with nothing to read a worker at its start can only end
      obtain ⟨rfl, hcases⟩ := start_step hstep
      refine .answering reply later (List.mem_append_left _ hhandled)
        (by rwa [List.append_nil]) ?_
      intro child' hnext
      rcases hcases with rfl | ⟨-, hlen⟩
      · cases hnext
      · simp [hempty] at hlen
    · obtain ⟨rfl, -, later', rfl, hrest'⟩ := writes_step hwrites hstep
      refine .answering reply later' (List.mem_append_left _ hhandled) ?_ ?_
      · rwa [List.append_assoc]
      · intro child' hnext
        refine ⟨by simp [hto], ?_⟩
        rcases hrest' with rfl | hwrites'
        · cases hnext
        · rcases next_cases hnext with ⟨-, rfl⟩ | ⟨-, rfl⟩
          · exact Or.inl rfl
          · exact Or.inr hwrites'

/-! ## Every run -/

theorem inv_start (generation : UInt64) : Inv (Link.start generation) where
  results := by
    intro answered h
    cases h
  exchange := by
    intro exchange h
    cases h

theorem inv_parent {outcome : IoOutcome} (h : Inv link) :
    Inv (link.step (.parent outcome)) := by
  cases hexchange : link.exchange with
  | none => simpa [Link.step, hexchange] using h
  | some exchange =>
    cases hstep : ioStep exchange.rest outcome link.fromChild with
    | none => simpa [Link.step, hexchange, hstep] using h
    | some result =>
      obtain ⟨rest, taken, written⟩ := result
      have hpaired := paired_parent (h.exchange exchange hexchange) hstep
      simp only [Link.step, hexchange, hstep]
      refine ⟨h.results, fun exchange' hex => ?_⟩
      cases hex
      exact hpaired

theorem taken_of_paired {answer : exchange.request.Answer}
    (h : Paired link exchange) (hrest : exchange.rest = .ret answer)
    {reply : exchange.request.Reply} (htaken : exchange.request.taken answer = some reply) :
    ⟨exchange.number, exchange.request, reply⟩ ∈ link.handled := by
  cases h with
  | failing hfailing =>
    rw [hrest] at hfailing
    cases htaken.symm.trans hfailing
  | asking pieces hasking hpieces hfrom hchild =>
    rw [hrest] at hasking
    cases pieces with
    | nil =>
      obtain ⟨number, request, rest⟩ := exchange
      cases request <;> cases hasking
    | cons piece pieces => cases hasking
  | answering reply' later hhandled hreads hchild =>
    rw [hrest] at hreads
    cases htaken.symm.trans hreads
    exact hhandled

theorem inv_finish (h : Inv link) : Inv (link.step .finish) := by
  cases hexchange : link.exchange with
  | none => simpa [Link.step, hexchange] using h
  | some exchange =>
    cases hrest : exchange.rest with
    | call call next => simpa [Link.step, hexchange, Link.finished, hrest] using h
    | ret answer =>
      simp only [Link.step, hexchange, Link.finished, hrest]
      refine ⟨fun answered hanswered => ?_, fun exchange' hex => by cases hex⟩
      rcases List.mem_append.mp hanswered with hold | hnew
      · exact h.results answered hold
      · rw [Option.mem_toList, Option.map_eq_some_iff] at hnew
        obtain ⟨reply, htaken, rfl⟩ := hnew
        exact taken_of_paired (h.exchange exchange hexchange) hrest htaken

theorem inv_child {outcome : IoOutcome} (h : Inv link) :
    Inv (link.step (.child outcome)) := by
  cases hchild : link.child with
  | none => simpa [Link.step, hchild] using h
  | some child =>
    cases hstep : ioStep child.rest outcome (link.toChild.map Prod.snd) with
    | none => simpa [Link.step, hchild, hstep] using h
    | some result =>
      obtain ⟨rest, taken, written⟩ := result
      simp only [Link.step, hchild, hstep]
      refine ⟨fun answered hanswered => List.mem_append_left _ (h.results answered hanswered),
        fun exchange hex => ?_⟩
      exact paired_child (h.exchange exchange hex) hchild hstep

theorem inv_kill (h : Inv link) : Inv (link.step .kill) := by
  refine ⟨h.results, fun exchange hex => ?_⟩
  cases h.exchange exchange hex with
  | failing hrest => exact .failing hrest
  | asking pieces hrest hpieces hfrom hchild =>
    exact .asking pieces hrest hpieces hfrom fun child hsome => by cases hsome
  | answering reply later hhandled hrest hchild =>
    exact .answering reply later hhandled hrest fun child hsome => by cases hsome

/-- **A step keeps the invariant**, where exchanges begin in step. -/
theorem inv_step (link : Link) (move : Move) (h : Inv link) (hsync : InStep link move) :
    Inv (link.step move) := by
  cases move with
  | begin request => exact inv_begin h hsync
  | parent outcome => exact inv_parent h
  | finish => exact inv_finish h
  | child outcome => exact inv_child h
  | kill => exact inv_kill h

/-- **Answers are paired.**  In a run in which every exchange begins with empty pipes and a worker
that has nothing left to do, each answer that is taken is the answer that the worker gave to that
very request. -/
theorem answers_paired {generation : UInt64} {link : Link}
    (h : Machine.Reach Link.step InStep (Link.start generation) link) :
    ∀ answered ∈ link.results, answered ∈ link.handled :=
  (h.invariant (inv_start generation) inv_step).results

/-- An event whose text is `{}`. -/
def emptyEvent (type : UInt32) : Event := { type, shardId := 0, rawJson := [123, 125] }

/-- The writes of a caller. -/
def askMoves : List Move := [.parent .done, .parent .done, .parent .done]

/-- The worker handles an event with no requests. -/
def answerMoves : List Move :=
  [.child .done, .child .done, .child (.allocated true), .child .done,
    .child (.answered { status := 0, items := [] }), .child .done, .child .done]

/-- A caller reads a result set with no requests. -/
def readMoves : List Move := [.parent .done, .parent .done, .finish]

/-- One event, and its answer in time. -/
def oneEvent : List Move :=
  .begin (.event (emptyEvent 7)) :: askMoves ++ answerMoves ++ readMoves

theorem oneEvent_inStep : Machine.Permitted Link.step InStep (Link.start 1) oneEvent := by
  refine ⟨fun _ _ => ⟨rfl, fun child hsome => ?_⟩, ?_⟩
  · cases hsome
    exact ⟨rfl, Or.inl rfl⟩
  · simp [Machine.Permitted, InStep, askMoves, answerMoves, readMoves]

theorem answers_paired_oneEvent :
    (oneEvent.foldl Link.step (Link.start 1)).results.map Answered.number = [0] ∧
      ∀ answered ∈ (oneEvent.foldl Link.step (Link.start 1)).results,
        answered ∈ (oneEvent.foldl Link.step (Link.start 1)).handled :=
  ⟨by decide +kernel, answers_paired (Machine.Reach.start.run oneEvent_inStep)⟩

/-- An event times out, its answer comes late, and the next event takes it. -/
def lateAnswer : List Move :=
  .begin (.event (emptyEvent 7)) :: askMoves ++ [.parent (.failed .timedOut 0), .finish] ++
    answerMoves ++ .begin (.event (emptyEvent 8)) :: askMoves ++ readMoves

/-- The second event has the answer to the first one, and the worker has not read it yet. -/
theorem late_answer_taken :
    ¬ ∀ generation link, Machine.Reach Link.step (fun _ _ => True) (Link.start generation) link →
        ∀ answered ∈ link.results, answered ∈ link.handled := by
  intro h
  have hreach : Machine.Reach Link.step (fun _ _ => True) (Link.start 1)
      (lateAnswer.foldl Link.step (Link.start 1)) := by
    refine Machine.Reach.start.run ?_
    simp [Machine.Permitted, lateAnswer, askMoves, answerMoves, readMoves]
  have hresults :
      (lateAnswer.foldl Link.step (Link.start 1)).results.map Answered.number = [1] := by
    decide +kernel
  have hhandled :
      (lateAnswer.foldl Link.step (Link.start 1)).handled.map Answered.number = [0] := by
    decide +kernel
  have hnumber : 1 ∈ (lateAnswer.foldl Link.step (Link.start 1)).results.map Answered.number := by
    rw [hresults]
    exact List.mem_cons_self
  obtain ⟨answered, hanswered, hone⟩ := List.mem_map.mp hnumber
  have hmem := List.mem_map_of_mem (f := Answered.number) (h 1 _ hreach answered hanswered)
  rw [hhandled, hone] at hmem
  simp at hmem

end Dcc.HotReload
