import Dcc.HotReload.Worker

/-!
# From how many workers an event has effects

A dispatch tries the candidate, the active and the last good worker in turn, and executes the
REST requests of each one that answers.  The last good worker is tried only when the active one
failed before its requests were executed.  The active one is tried whenever the candidate's try
ends with an error, which may be the error of one of the candidate's own requests.

* `tryEvent_run` — what a try does;
* `oneWorker_iff` — so an event has effects from one worker exactly when no candidate with
  executed requests and an error is followed by a worker that is alive.
-/

namespace Dcc.HotReload

open Program (Run)

/-- The calls of a procedure with their replies. -/
abbrev Trace := List (Program.Event Call Reply)

/-! ## Effects of a run -/

/-- An event is handed to a worker. -/
def isSend : Program.Event Call Reply → Bool
  | ⟨.send _ _, _⟩ => true
  | _ => false

/-- A request of a worker is executed. -/
def isRequest : Program.Event Call Reply → Bool
  | ⟨.request _, _⟩ => true
  | _ => false

/-- Once a request was executed no worker gets the event. -/
def Final (trace : Trace) : Prop :=
  ∀ before request after, trace = before ++ request :: after → isRequest request = true →
    ∀ e ∈ after, isSend e = false

/-- The worker that answers the event. -/
def answerer : Program.Event Call Reply → Option Worker
  | ⟨.send worker _, .ok _⟩ => some worker
  | _ => none

/-- The workers whose requests are executed, with the worker that answered last. -/
def sourcesFrom (current : Option Worker) : Trace → List Worker
  | [] => []
  | e :: trace =>
    (if isRequest e then current.toList else []) ++ sourcesFrom ((answerer e).or current) trace

/-- **The event has effects from one worker**: all executed requests come from one worker, and
none gets the event after them. -/
def OneWorker (trace : Trace) : Prop :=
  (∀ w ∈ sourcesFrom none trace, ∀ w' ∈ sourcesFrom none trace, w = w') ∧ Final trace

theorem final_nil : Final [] := by
  intro before request after h
  simp at h

variable {e : Program.Event Call Reply}

theorem final_cons {trace : Trace} :
    Final (e :: trace) ↔ (isRequest e = true → ∀ e' ∈ trace, isSend e' = false) ∧ Final trace := by
  constructor
  · intro h
    refine ⟨h [] e trace rfl, fun before request after heq => ?_⟩
    exact h (e :: before) request after (by rw [heq]; rfl)
  · intro h before request after heq hrequest
    cases before with
    | nil =>
      obtain ⟨rfl, rfl⟩ := List.cons.inj heq
      exact h.1 hrequest
    | cons e' before =>
      obtain ⟨rfl, rfl⟩ := List.cons.inj heq
      exact h.2 before request after rfl hrequest

theorem final_append {a b : Trace} :
    Final (a ++ b) ↔ Final a ∧ Final b ∧ (a.any isRequest = true → b.any isSend = false) := by
  induction a with
  | nil => simp [final_nil]
  | cons e a ih =>
    rw [List.cons_append, final_cons, final_cons, ih]
    simp only [List.mem_append, List.any_cons, Bool.or_eq_true, List.any_eq_false, Bool.not_eq_true]
    grind

theorem answerer_of_quiet (h : isSend e = false) :
    answerer e = none := by
  unfold answerer
  split
  · simp [isSend] at h
  · rfl

theorem sourcesFrom_quiet {trace : Trace} (h : ∀ e ∈ trace, isSend e = false)
    (current : Option Worker) : ∀ w ∈ sourcesFrom current trace, current = some w := by
  induction trace with
  | nil => simp [sourcesFrom]
  | cons e trace ih =>
    have hrest := ih fun e' he' => h e' (List.mem_cons_of_mem e he')
    intro w hw
    rw [sourcesFrom, answerer_of_quiet (h e List.mem_cons_self), Option.none_or,
      List.mem_append] at hw
    rcases hw with hw | hw
    · split at hw
      · exact Option.mem_toList.mp hw
      · cases hw
    · exact hrest w hw

theorem sourcesFrom_final {trace : Trace} (h : Final trace) (current : Option Worker) :
    ∀ w ∈ sourcesFrom current trace, ∀ w' ∈ sourcesFrom current trace, w = w' := by
  induction trace generalizing current with
  | nil => simp [sourcesFrom]
  | cons e trace ih =>
    obtain ⟨hfirst, hrest⟩ := final_cons.mp h
    by_cases hrequest : isRequest e = true
    · have hnone : answerer e = none := by
        unfold answerer
        split
        · simp [isRequest] at hrequest
        · rfl
      have hall : ∀ v ∈ sourcesFrom current (e :: trace), current = some v := by
        intro v hv
        rw [sourcesFrom, hnone, Option.none_or, if_pos hrequest, List.mem_append] at hv
        rcases hv with hv | hv
        · exact Option.mem_toList.mp hv
        · exact sourcesFrom_quiet (hfirst hrequest) current v hv
      intro w hw w' hw'
      exact Option.some.inj ((hall w hw).symm.trans (hall w' hw'))
    · have hsame : sourcesFrom current (e :: trace) =
          sourcesFrom ((answerer e).or current) trace := by
        rw [sourcesFrom, if_neg hrequest, List.nil_append]
      rw [hsame]
      exact ih hrest _

theorem oneWorker_iff_final {trace : Trace} : OneWorker trace ↔ Final trace :=
  ⟨fun h => h.2, fun h => ⟨sourcesFrom_final h none, h⟩⟩

/-! ## What a try does -/

/-- How a try of a worker turns out. -/
inductive Outcome
  /-- The worker is not alive. -/
  | dead
  /-- The worker does not answer. -/
  | failed (status : UInt32)
  /-- The worker answers; its requests have these statuses. -/
  | answered (result : ResultSet) (requests : List (RestEntry × UInt32))

/-- The status after the requests. -/
def mergeStatus (status : UInt32) (statuses : List UInt32) : UInt32 :=
  statuses.foldl
    (fun status rest => if status = Status.ok.code ∧ rest ≠ Status.ok.code then rest else status)
    status

namespace Outcome

/-- The calls of the try. -/
def trace (worker : Worker) (event : Event) : Outcome → Trace
  | dead => [⟨.alive worker, false⟩]
  | failed status => [⟨.alive worker, true⟩, ⟨.send worker event, .error status⟩]
  | answered result requests =>
    ⟨.alive worker, true⟩ :: ⟨.send worker event, .ok result⟩ ::
      requests.map fun r => ⟨.request r.1, r.2⟩

/-- What the try returns. -/
def value : Outcome → UInt32 × Bool
  | dead => (Status.runtime.code, true)
  | failed status => (status, true)
  | answered result requests => (mergeStatus result.status (requests.map Prod.snd), false)

/-- The requests are those of the result set. -/
def Matches : Outcome → Prop
  | answered result requests => requests.map Prod.fst = result.items
  | _ => True

/-- The worker is alive. -/
def alive : Outcome → Bool
  | dead => false
  | _ => true

/-- Requests of the worker are executed. -/
def executes : Outcome → Bool
  | answered _ requests => requests != []
  | _ => false

@[simp] theorem any_isSend_trace (o : Outcome) (worker : Worker) (event : Event) :
    (o.trace worker event).any isSend = o.alive := by
  cases o <;> rfl

@[simp] theorem any_isRequest_trace (o : Outcome) (worker : Worker) (event : Event) :
    (o.trace worker event).any isRequest = o.executes := by
  cases o with
  | dead => rfl
  | failed _ => rfl
  | answered result requests => cases requests <;> rfl

theorem final_trace (o : Outcome) (worker : Worker) (event : Event) :
    Final (o.trace worker event) := by
  have hrequests : ∀ requests : List (RestEntry × UInt32),
      Final (requests.map fun r => (⟨.request r.1, r.2⟩ : Program.Event Call Reply)) := by
    intro requests
    induction requests with
    | nil => exact final_nil
    | cons r requests ih =>
      refine final_cons.mpr ⟨fun _ e he => ?_, ih⟩
      obtain ⟨r', -, rfl⟩ := List.mem_map.mp he
      rfl
  have hother : ∀ {e : Program.Event Call Reply} {trace : Trace}, isRequest e = false →
      Final trace → Final (e :: trace) := by
    intro e trace he h
    refine final_cons.mpr ⟨fun he' => ?_, h⟩
    rw [he] at he'
    cases he'
  cases o with
  | dead => exact hother rfl final_nil
  | failed _ => exact hother rfl (hother rfl final_nil)
  | answered result requests => exact hother rfl (hother rfl (hrequests requests))

end Outcome

theorem executeRest_run {status value : UInt32} {items : List RestEntry} {trace : Trace}
    (h : Run (executeRest status items) trace value) :
    ∃ requests : List (RestEntry × UInt32), requests.map Prod.fst = items ∧
      trace = requests.map (fun r => ⟨.request r.1, r.2⟩) ∧
      value = mergeStatus status (requests.map Prod.snd) := by
  induction items generalizing status trace with
  | nil =>
    cases h
    exact ⟨[], rfl, rfl, rfl⟩
  | cons entry items ih =>
    cases h with
    | call rest h =>
      obtain ⟨requests, hitems, rfl, hvalue⟩ := ih h
      exact ⟨(entry, rest) :: requests, by simp [hitems], rfl, hvalue⟩

/-- **What a try does.** -/
theorem tryEvent_run {worker : Worker} {event : Event} {trace : Trace} {value : UInt32 × Bool}
    (h : Run (tryEvent worker event) trace value) :
    ∃ o : Outcome, o.Matches ∧ trace = o.trace worker event ∧ value = o.value := by
  cases h with
  | call alive h =>
    cases alive with
    | false =>
      cases h
      exact ⟨.dead, trivial, rfl, rfl⟩
    | true =>
      cases h with
      | call sent h =>
        cases sent with
        | error status =>
          cases h
          exact ⟨.failed status, trivial, rfl, rfl⟩
        | ok result =>
          change Run ((executeRest result.status result.items).bind _) _ _ at h
          obtain ⟨first, status, rest, rfl, hfirst, hrest⟩ := Program.run_bind.mp h
          obtain ⟨requests, hitems, rfl, rfl⟩ := executeRest_run hfirst
          cases hrest
          exact ⟨.answered result requests, hitems, by simp [Outcome.trace], rfl⟩

/-! ## What the stages of a dispatch do -/

/-- A worker is asked whether it is alive. -/
def isAlive : Program.Event Call Reply → Bool
  | ⟨.alive _, _⟩ => true
  | _ => false

/-- Calls that try no worker. -/
def Quiet (trace : Trace) : Prop :=
  ∀ e ∈ trace, isSend e = false ∧ isRequest e = false ∧ isAlive e = false

theorem quiet_nil : Quiet [] := by
  intro e he
  cases he

theorem quiet_cons {trace : Trace} :
    Quiet (e :: trace) ↔
      (isSend e = false ∧ isRequest e = false ∧ isAlive e = false) ∧ Quiet trace :=
  List.forall_mem_cons

theorem Quiet.append {a b : Trace} (ha : Quiet a) (hb : Quiet b) : Quiet (a ++ b) := by
  intro e he
  exact (List.mem_append.mp he).elim (ha e) (hb e)

variable {event : Event} {trace : Trace} {d d' : Dispatch}

variable {routing : Routing}

theorem dispatchPrimary_run (h : Run (dispatchPrimary routing event) trace d) :
    (∃ w o, (if routing.routed then routing.candidate else routing.active) = some w ∧
      Outcome.Matches o ∧ trace = o.trace w event ∧ (d.status, d.activeFailed) = o.value) ∨
    (trace = [] ∧ d.activeFailed = false ∧
      (if routing.routed then routing.candidate else routing.active) = none) := by
  obtain ⟨first, value, rest, rfl, hfirst, hrest⟩ := Program.run_bind.mp h
  cases hrest
  rw [List.append_nil]
  cases hprimary : (if routing.routed then routing.candidate else routing.active) with
  | none =>
    rw [hprimary] at hfirst
    cases hfirst
    exact Or.inr ⟨rfl, rfl, rfl⟩
  | some w =>
    rw [hprimary] at hfirst
    obtain ⟨o, hmatches, rfl, rfl⟩ := tryEvent_run hfirst
    exact Or.inl ⟨w, o, rfl, hmatches, rfl, rfl⟩

theorem dispatchFallback_run (h : Run (dispatchFallback routing event d) trace d') :
    (routing.routed = false ∧ trace = [] ∧ d' = d) ∨
    (routing.routed = true ∧ Quiet trace ∧ d'.activeFailed = false) ∨
    (∃ c a o q, routing.routed = true ∧ routing.candidate = some c ∧ routing.active = some a ∧
      a ≠ c ∧ d.status ≠ Status.ok.code ∧ Quiet q ∧ Outcome.Matches o ∧
      trace = q ++ o.trace a event ∧ (d'.status, d'.activeFailed) = o.value) := by
  unfold dispatchFallback at h
  split at h
  · rename_i c hrouted hcandidate
    cases h with
    | call recorded h =>
      cases h with
      | call decided h =>
        have hquiet : Quiet [⟨.recordCanary c (d.status == Status.ok.code), recorded⟩,
            ⟨.decideCanary c, decided⟩] :=
          quiet_cons.mpr ⟨⟨rfl, rfl, rfl⟩, quiet_cons.mpr ⟨⟨rfl, rfl, rfl⟩, quiet_nil⟩⟩
        cases hactive : routing.active with
        | none =>
          simp only [hactive] at h
          cases h
          exact Or.inr (Or.inl ⟨hrouted, hquiet, rfl⟩)
        | some a =>
          simp only [hactive] at h
          split at h
          · rename_i hcond
            change Run ((tryEvent a event).bind _) _ _ at h
            obtain ⟨first, value, rest, rfl, hfirst, hrest⟩ := Program.run_bind.mp h
            obtain ⟨o, hmatches, rfl, rfl⟩ := tryEvent_run hfirst
            cases hrest
            exact Or.inr (Or.inr ⟨c, a, o, _, hrouted, hcandidate, rfl, hcond.2, hcond.1, hquiet,
              hmatches, by simp, rfl⟩)
          · cases h
            exact Or.inr (Or.inl ⟨hrouted, hquiet, rfl⟩)
  · rename_i hother
    cases h
    cases hrouted : routing.routed with
    | false => exact Or.inl ⟨rfl, rfl, rfl⟩
    | true =>
      obtain ⟨c, hc⟩ := Option.ne_none_iff_exists'.mp (routing.routed_candidate hrouted)
      exact absurd hc (hother c hrouted)

variable {slots : Slots}

theorem dispatchLastGood_run (h : Run (dispatchLastGood slots event d) trace d') :
    (trace = [] ∧ d' = d) ∨
    (∃ a l o q q', slots.active = some a ∧ slots.lastGood = some l ∧ l ≠ a ∧
      d.status ≠ Status.ok.code ∧ d.activeFailed = true ∧ Outcome.Matches o ∧ Quiet q ∧ Quiet q' ∧
      trace = q ++ o.trace l event ++ q') := by
  unfold dispatchLastGood at h
  split at h
  · rename_i a l hactive hlastGood
    split at h
    · rename_i hcond
      cases h with
      | call promoted h =>
        have hquiet : Quiet [⟨.promoteLastGood a l, promoted⟩] :=
          quiet_cons.mpr ⟨⟨rfl, rfl, rfl⟩, quiet_nil⟩
        change Run ((tryEvent l event).bind _) _ _ at h
        obtain ⟨first, value, rest, rfl, hfirst, hrest⟩ := Program.run_bind.mp h
        obtain ⟨o, hmatches, rfl, rfl⟩ := tryEvent_run hfirst
        refine Or.inr ⟨a, l, o, _, rest, hactive, hlastGood, hcond.2.2, hcond.1, hcond.2.1,
          hmatches, hquiet, ?_, by simp⟩
        simp only at hrest
        split at hrest
        · cases hrest with
          | call retired hrest =>
            cases hrest
            exact quiet_cons.mpr ⟨⟨rfl, rfl, rfl⟩, quiet_nil⟩
        · cases hrest
          exact quiet_nil
    · cases h
      exact Or.inl ⟨rfl, rfl⟩
  · cases h
    exact Or.inl ⟨rfl, rfl⟩

theorem dispatchRetire_run (h : Run (dispatchRetire slots d) trace d') :
    Quiet trace := by
  unfold dispatchRetire at h
  split at h
  · split at h
    · cases h with
      | call retired h =>
        cases h
        exact quiet_cons.mpr ⟨⟨rfl, rfl, rfl⟩, quiet_nil⟩
    · cases h
      exact quiet_nil
  · cases h
    exact quiet_nil

theorem retire_run {worker : Option Worker} {value : Unit} (h : Run (retire worker) trace value) :
    Quiet trace := by
  cases worker with
  | none =>
    cases h
    exact quiet_nil
  | some w =>
    cases h with
    | call _ h =>
      cases h with
      | call _ h =>
        cases h
        exact quiet_cons.mpr ⟨⟨rfl, rfl, rfl⟩, quiet_cons.mpr ⟨⟨rfl, rfl, rfl⟩, quiet_nil⟩⟩

theorem dispatchEnd_run {status : UInt32} (h : Run (dispatchEnd event d) trace status) :
    Quiet trace := by
  obtain ⟨t₁, _, r₁, rfl, h₁, h⟩ := Program.run_bind.mp h
  obtain ⟨t₂, _, r₂, rfl, h₂, h⟩ := Program.run_bind.mp h
  obtain ⟨t₃, _, r₃, rfl, h₃, h⟩ := Program.run_bind.mp h
  obtain ⟨t₄, _, r₄, rfl, h₄, h⟩ := Program.run_bind.mp h
  have hend : Quiet r₄ := by
    split at h
    · cases h with
      | call _ h =>
        cases h with
        | call _ h =>
          cases h with
          | call _ h =>
            cases h
            exact quiet_cons.mpr ⟨⟨rfl, rfl, rfl⟩, quiet_cons.mpr ⟨⟨rfl, rfl, rfl⟩,
              quiet_cons.mpr ⟨⟨rfl, rfl, rfl⟩, quiet_nil⟩⟩⟩
    · cases h with
      | call _ h =>
        cases h
        exact quiet_cons.mpr ⟨⟨rfl, rfl, rfl⟩, quiet_nil⟩
  exact (retire_run h₁).append ((retire_run h₂).append ((retire_run h₃).append
    ((retire_run h₄).append hend)))

/-! ## One worker -/

/-- The candidate's requests are executed, its try ends with an error, and another worker that
is to be tried then is alive: the active one, or the last good one. -/
def Redone (event : Event) (trace : Trace) : Prop :=
  ∃ routing c a result requests after, trace = ⟨.enter event, .ok routing⟩ ::
      ((Outcome.answered result requests).trace c event ++ after) ∧
    routing.routed = true ∧ routing.candidate = some c ∧
    requests.map Prod.fst = result.items ∧ result.items ≠ [] ∧
    mergeStatus result.status (requests.map Prod.snd) ≠ Status.ok.code ∧
    routing.active = some a ∧ a ≠ c ∧
    (⟨.alive a, true⟩ ∈ after ∨ ∃ l, routing.lastGood = some l ∧ l ≠ a ∧ ⟨.alive l, true⟩ ∈ after)

theorem Quiet.any_isSend (h : Quiet trace) : trace.any isSend = false := by
  rw [List.any_eq_false]
  intro e he
  rw [(h e he).1]
  decide

theorem Quiet.any_isRequest (h : Quiet trace) : trace.any isRequest = false := by
  rw [List.any_eq_false]
  intro e he
  rw [(h e he).2.1]
  decide

theorem Quiet.final (h : Quiet trace) : Final trace := by
  induction trace with
  | nil => exact final_nil
  | cons e trace ih =>
    obtain ⟨he, hrest⟩ := quiet_cons.mp h
    refine final_cons.mpr ⟨fun hrequest => ?_, ih hrest⟩
    rw [he.2.1] at hrequest
    cases hrequest

variable {o : Outcome}

theorem Outcome.executes_of_failed (h : o.value.2 = true) : o.executes = false := by
  cases o with
  | dead => rfl
  | failed _ => rfl
  | answered _ _ => cases h

theorem trace_cancel {w w' : Worker} {result : ResultSet}
    {requests : List (RestEntry × UInt32)} {a b : Trace} (ho : o.Matches)
    (hrequests : requests.map Prod.fst = result.items)
    (h : o.trace w event ++ a = (Outcome.answered result requests).trace w' event ++ b) :
    o = .answered result requests ∧ a = b := by
  cases o with
  | dead => simp [Outcome.trace] at h
  | failed _ => simp [Outcome.trace] at h
  | answered result' requests' =>
    simp only [Outcome.trace, List.cons_append, List.cons.injEq] at h
    obtain ⟨-, hsend, htail⟩ := h
    cases hsend
    have hlength : requests'.length = requests.length := by
      have hsame : requests'.map Prod.fst = requests.map Prod.fst := ho.trans hrequests.symm
      simpa using congrArg List.length hsame
    obtain ⟨hmap, hrest⟩ := List.append_inj htail (by simp [hlength])
    have hinjective : Function.Injective
        fun r : RestEntry × UInt32 => (⟨.request r.1, r.2⟩ : Program.Event Call Reply) := by
      intro r r' hr
      simp only [Sigma.mk.injEq, Call.request.injEq, heq_eq_eq] at hr
      exact Prod.ext hr.1 hr.2
    rw [List.map_injective_iff.mpr hinjective hmap]
    exact ⟨rfl, hrest⟩

theorem mem_alive_trace {w x : Worker} :
    (⟨.alive x, true⟩ : Program.Event Call Reply) ∈ o.trace w event ↔ x = w ∧ o.alive = true := by
  cases o <;> simp [Outcome.trace, Outcome.alive]

theorem Quiet.not_mem_alive {x : Worker} (h : Quiet trace) :
    (⟨.alive x, true⟩ : Program.Event Call Reply) ∉ trace := by
  intro hmem
  have halive := (h _ hmem).2.2
  cases halive

/-- What comes after the active worker: nothing that tries a worker, unless the active one
failed, and then a try of the last good one. -/
theorem lastGood_tail (h : Run (dispatchLastGood slots event d) trace d')
    {q : Trace} (hq : Quiet q) :
    Final (trace ++ q) ∧ (d.activeFailed = false ∨ slots.active = none → Quiet (trace ++ q)) ∧
      ∀ a, slots.active = some a → (⟨.alive a, true⟩ ∉ trace ++ q) ∧
        ((trace ++ q).any isSend = true ↔
          ∃ l, slots.lastGood = some l ∧ l ≠ a ∧ ⟨.alive l, true⟩ ∈ trace ++ q) := by
  rcases dispatchLastGood_run h with ⟨rfl, -⟩ |
    ⟨a, l, o, q₁, q₂, hactive, hlastGood, hne, -, hfailed, -, hq₁, hq₂, rfl⟩
  · rw [List.nil_append]
    refine ⟨hq.final, fun _ => hq, fun a _ => ⟨hq.not_mem_alive, ?_⟩⟩
    rw [hq.any_isSend]
    constructor
    · intro hfalse
      cases hfalse
    · intro hmem
      obtain ⟨l, -, -, hmem⟩ := hmem
      exact absurd hmem hq.not_mem_alive
  · have htail : Quiet (q₂ ++ q) := hq₂.append hq
    rw [List.append_assoc, List.append_assoc]
    have hmem : ∀ x, (⟨.alive x, true⟩ : Program.Event Call Reply) ∈
        q₁ ++ (o.trace l event ++ (q₂ ++ q)) ↔ x = l ∧ o.alive = true := by
      intro x
      rw [List.mem_append, List.mem_append, mem_alive_trace]
      have h₁ := hq₁.not_mem_alive (x := x)
      have h₂ := htail.not_mem_alive (x := x)
      tauto
    have hsend : (q₁ ++ (o.trace l event ++ (q₂ ++ q))).any isSend = o.alive := by
      simp only [List.any_append, Outcome.any_isSend_trace, hq₁.any_isSend, hq₂.any_isSend,
        hq.any_isSend, Bool.or_false, Bool.false_or]
    refine ⟨?_, fun hor => ?_, fun a' ha' => ?_⟩
    · refine final_append.mpr ⟨hq₁.final, final_append.mpr ⟨o.final_trace l event, htail.final,
        fun _ => htail.any_isSend⟩, fun hrequest => ?_⟩
      rw [hq₁.any_isRequest] at hrequest
      cases hrequest
    · rcases hor with hor | hor
      · rw [hfailed] at hor
        cases hor
      · rw [hactive] at hor
        cases hor
    · rw [hactive] at ha'
      cases ha'
      rw [hsend, hmem]
      refine ⟨fun hsame => hne hsame.1.symm, fun halive => ⟨l, hlastGood, hne, ?_⟩, fun hex => ?_⟩
      · exact (hmem l).mpr ⟨rfl, halive⟩
      · obtain ⟨l', -, -, hmem'⟩ := hex
        exact ((hmem l').mp hmem').2

theorem final_of_parts {first rest : Trace} (hfirst : Final first) (hrest : Final rest)
    (h : first.any isRequest = false ∨ rest.any isSend = false) : Final (first ++ rest) := by
  refine final_append.mpr ⟨hfirst, hrest, fun hrequest => ?_⟩
  rcases h with hnone | hnone
  · rw [hnone] at hrequest
    cases hrequest
  · exact hnone

theorem final_enter {trace : Trace} :
    Final (⟨.enter event, .ok routing⟩ :: trace) ↔ Final trace := by
  rw [final_cons]
  refine ⟨And.right, fun h => ⟨fun he => ?_, h⟩⟩
  cases he

theorem final_of_no_fallback {t₁ t₂ t₃ q : Trace} {d₁ d₂ d₃ : Dispatch}
    (h₁ : Run (dispatchPrimary routing event) t₁ d₁) (h₂ : Quiet t₂)
    (h₃ : Run (dispatchLastGood routing.toSlots event d₂) t₃ d₃) (hq : Quiet q)
    (hkeeps : d₂.activeFailed = true → d₁.activeFailed = true) :
    Final (t₁ ++ (t₂ ++ (t₃ ++ q))) := by
  obtain ⟨htail, hquiet, -⟩ := lastGood_tail h₃ hq
  have hrest : Final (t₂ ++ (t₃ ++ q)) :=
    final_of_parts h₂.final htail (Or.inl h₂.any_isRequest)
  rcases dispatchPrimary_run h₁ with ⟨w, o, -, -, rfl, hvalue⟩ | ⟨rfl, -, -⟩
  · refine final_of_parts (o.final_trace w event) hrest ?_
    rw [Outcome.any_isRequest_trace]
    cases hfailed : d₂.activeFailed with
    | true =>
      refine Or.inl (Outcome.executes_of_failed ?_)
      rw [← hvalue]
      exact hkeeps hfailed
    | false =>
      right
      rw [List.any_append, h₂.any_isSend, (hquiet (Or.inl hfailed)).any_isSend]
      rfl
  · exact hrest

/-- The stages of a dispatch that went on from the candidate to the active worker. -/
theorem final_fallback_iff {o₁ o₂ : Outcome} {c a : Worker} {t₃ q₁ q : Trace}
    {d₂ d₃ : Dispatch} (hactive : slots.active = some a) (hq₁ : Quiet q₁)
    (hvalue : (d₂.status, d₂.activeFailed) = o₂.value)
    (h₃ : Run (dispatchLastGood slots event d₂) t₃ d₃) (hq : Quiet q) :
    Final (o₁.trace c event ++ (q₁ ++ o₂.trace a event ++ (t₃ ++ q))) ↔
      ¬ (o₁.executes = true ∧ (⟨.alive a, true⟩ ∈ q₁ ++ o₂.trace a event ++ (t₃ ++ q) ∨
        ∃ l, slots.lastGood = some l ∧ l ≠ a ∧
          ⟨.alive l, true⟩ ∈ q₁ ++ o₂.trace a event ++ (t₃ ++ q))) := by
  obtain ⟨htail, hquiet, hsends⟩ := lastGood_tail h₃ hq
  obtain ⟨hnot, hsends⟩ := hsends a hactive
  have hmem : ∀ x, (⟨.alive x, true⟩ : Program.Event Call Reply) ∈
      q₁ ++ o₂.trace a event ++ (t₃ ++ q) ↔
        (x = a ∧ o₂.alive = true) ∨ ⟨.alive x, true⟩ ∈ t₃ ++ q := by
    intro x
    rw [List.mem_append, List.mem_append, mem_alive_trace]
    have hnone := hq₁.not_mem_alive (x := x)
    tauto
  have hmiddle : Final (q₁ ++ o₂.trace a event) :=
    final_of_parts hq₁.final (o₂.final_trace a event) (Or.inl hq₁.any_isRequest)
  have hrest : Final (q₁ ++ o₂.trace a event ++ (t₃ ++ q)) := by
    refine final_of_parts hmiddle htail ?_
    rw [List.any_append, hq₁.any_isRequest, Outcome.any_isRequest_trace, Bool.false_or]
    cases hfailed : d₂.activeFailed with
    | true =>
      refine Or.inl (Outcome.executes_of_failed ?_)
      rw [← hvalue]
      exact hfailed
    | false => exact Or.inr (hquiet (Or.inl hfailed)).any_isSend
  have hany : (q₁ ++ o₂.trace a event ++ (t₃ ++ q)).any isSend = true ↔
      ⟨.alive a, true⟩ ∈ q₁ ++ o₂.trace a event ++ (t₃ ++ q) ∨
        ∃ l, slots.lastGood = some l ∧ l ≠ a ∧
          ⟨.alive l, true⟩ ∈ q₁ ++ o₂.trace a event ++ (t₃ ++ q) := by
    rw [List.any_append, List.any_append, hq₁.any_isSend, Outcome.any_isSend_trace,
      Bool.false_or, Bool.or_eq_true, hsends, hmem]
    constructor
    · intro hor
      rcases hor with halive | ⟨l, hl, hne, hin⟩
      · exact Or.inl (Or.inl ⟨rfl, halive⟩)
      · exact Or.inr ⟨l, hl, hne, (hmem l).mpr (Or.inr hin)⟩
    · intro hor
      rcases hor with (⟨-, halive⟩ | hin) | ⟨l, hl, hne, hin⟩
      · exact Or.inl halive
      · exact absurd hin hnot
      · rcases (hmem l).mp hin with ⟨heq, -⟩ | hin
        · exact absurd heq hne
        · exact Or.inr ⟨l, hl, hne, hin⟩
  rw [final_append, Outcome.any_isRequest_trace, ← hany]
  constructor
  · intro hfinal hand
    rw [hfinal.2.2 hand.1] at hand
    cases hand.2
  · intro hnot
    refine ⟨o₁.final_trace c event, hrest, fun hexecutes => ?_⟩
    exact Bool.eq_false_iff.mpr fun htrue => hnot ⟨hexecutes, htrue⟩

theorem redone_iff {c : Worker} {rest : Trace}
    (hrouted : routing.routed = true) (hcandidate : routing.candidate = some c) (ho : o.Matches) :
    Redone event (⟨.enter event, .ok routing⟩ :: (o.trace c event ++ rest)) ↔
      o.executes = true ∧ o.value.1 ≠ Status.ok.code ∧
        ∃ a, routing.active = some a ∧ a ≠ c ∧ (⟨.alive a, true⟩ ∈ rest ∨
          ∃ l, routing.lastGood = some l ∧ l ≠ a ∧ ⟨.alive l, true⟩ ∈ rest) := by
  constructor
  · intro h
    obtain ⟨routing', c', a, result, requests, after, htrace, -, hc, hitems, hne, hstatus, ha, hac,
      halive⟩ := h
    simp only [List.cons.injEq] at htrace
    obtain ⟨henter, htrace⟩ := htrace
    cases henter
    rw [hcandidate] at hc
    cases hc
    obtain ⟨rfl, rfl⟩ := trace_cancel ho hitems htrace
    refine ⟨?_, hstatus, a, ha, hac, halive⟩
    rw [← hitems] at hne
    simpa [Outcome.executes] using hne
  · intro h
    obtain ⟨hexecutes, hstatus, a, ha, hac, halive⟩ := h
    cases o with
    | dead => cases hexecutes
    | failed _ => cases hexecutes
    | answered result requests =>
      refine ⟨routing, c, a, result, requests, rest, rfl, hrouted, hcandidate, ho, ?_, hstatus, ha,
        hac, halive⟩
      rw [← show requests.map Prod.fst = result.items from ho]
      simpa [Outcome.executes] using hexecutes

/-- **An event has effects from one worker** exactly when no candidate whose requests were
executed, and whose try ended with an error, is followed by a worker that is alive. -/
theorem oneWorker_iff {status : UInt32} (h : Run (dispatchEvent event) trace status) :
    OneWorker trace ↔ ¬ Redone event trace := by
  rw [oneWorker_iff_final]
  unfold dispatchEvent at h
  split at h
  · cases h
    refine ⟨fun _ hredone => ?_, fun _ => final_nil⟩
    obtain ⟨_, _, _, _, _, _, htrace, -⟩ := hredone
    cases htrace
  · cases h with
    | call entered h =>
      cases entered with
      | error _ =>
        cases h
        refine ⟨fun _ hredone => ?_, fun _ => final_cons.mpr ⟨fun he => ?_, final_nil⟩⟩
        · obtain ⟨_, _, _, _, _, _, htrace, -⟩ := hredone
          simp at htrace
        · cases he
      | ok routing =>
        change Run ((dispatchPrimary routing event).bind _) _ _ at h
        obtain ⟨t₁, d₁, r₁, rfl, h₁, h⟩ := Program.run_bind.mp h
        obtain ⟨t₂, d₂, r₂, rfl, h₂, h⟩ := Program.run_bind.mp h
        obtain ⟨t₃, d₃, r₃, rfl, h₃, h⟩ := Program.run_bind.mp h
        obtain ⟨t₄, d₄, r₄, rfl, h₄, h⟩ := Program.run_bind.mp h
        have hq : Quiet (t₄ ++ r₄) := (dispatchRetire_run h₄).append (dispatchEnd_run h)
        rw [final_enter]
        rcases dispatchFallback_run h₂ with ⟨hrouted, rfl, rfl⟩ | ⟨hrouted, hquiet, hfailed⟩ |
          ⟨c, a, o₂, q₁, hrouted, hcandidate, hactive, hne, hstatus, hq₁, -, rfl, hvalue⟩
        · refine ⟨fun _ hredone => ?_, fun _ => final_of_no_fallback h₁ quiet_nil h₃ hq id⟩
          obtain ⟨routing', _, _, _, _, _, htrace, hrouted', -⟩ := hredone
          simp only [List.cons.injEq] at htrace
          cases htrace.1
          rw [hrouted] at hrouted'
          cases hrouted'
        · have hrest : Quiet (t₂ ++ (t₃ ++ (t₄ ++ r₄))) :=
            hquiet.append ((lastGood_tail h₃ hq).2.1 (Or.inl hfailed))
          refine ⟨fun _ => ?_, fun _ => final_of_no_fallback h₁ hquiet h₃ hq fun hfailed' => ?_⟩
          · obtain ⟨c, hcandidate⟩ :=
              Option.ne_none_iff_exists'.mp (routing.routed_candidate hrouted)
            rcases dispatchPrimary_run h₁ with ⟨w, o, hprimary, ho, rfl, -⟩ | ⟨-, -, hnone⟩
            · rw [if_pos hrouted, hcandidate] at hprimary
              cases hprimary
              rw [redone_iff hrouted hcandidate ho]
              intro hredone
              obtain ⟨-, -, a, -, -, halive⟩ := hredone
              rcases halive with halive | ⟨l, -, -, halive⟩
              · exact hrest.not_mem_alive halive
              · exact hrest.not_mem_alive halive
            · rw [if_pos hrouted, hcandidate] at hnone
              cases hnone
          · rw [hfailed] at hfailed'
            cases hfailed'
        · rcases dispatchPrimary_run h₁ with ⟨w, o₁, hprimary, ho, rfl, hvalue₁⟩ | ⟨-, -, hnone⟩
          · rw [if_pos hrouted, hcandidate] at hprimary
            cases hprimary
            rw [redone_iff hrouted hcandidate ho, final_fallback_iff hactive hq₁ hvalue h₃ hq]
            have hstatus₁ : o₁.value.1 ≠ Status.ok.code := by
              rw [← hvalue₁]
              exact hstatus
            constructor
            · intro hfinal hredone
              obtain ⟨hexecutes, -, a', ha', -, halive⟩ := hredone
              rw [hactive] at ha'
              cases ha'
              exact hfinal ⟨hexecutes, halive⟩
            · intro hnot hand
              exact hnot ⟨hand.1, hstatus₁, a, hactive, hne, hand.2⟩
          · rw [if_pos hrouted, hcandidate] at hnone
            cases hnone

/-- An event with one byte of JSON. -/
def someEvent : Event := ⟨1, 0, [0x7b]⟩

/-- A request. -/
def someRequest : RestEntry := ⟨asciiText "POST", asciiText "/a", [], []⟩

/-- Worker 1 is active; worker 2 is the candidate where there is one. -/
def someRouting (candidate : Option Worker) : Routing where
  active := some 1
  lastGood := none
  candidate := candidate
  routed := candidate.isSome
  routed_candidate := by
    cases candidate <;> simp

/-- A dispatch to the active worker, which answers with one request that fails. -/
def activeTrace : Trace :=
  [⟨.enter someEvent, .ok (someRouting none)⟩, ⟨.alive 1, true⟩,
    ⟨.send 1 someEvent, .ok ⟨Status.ok.code, [someRequest]⟩⟩,
    ⟨.request someRequest, Status.network.code⟩, ⟨.temporaryError someEvent, Status.ok.code⟩,
    ⟨.recordFailure Status.network.code false true, ()⟩, ⟨.leave, ()⟩]

theorem run_activeTrace : Run (dispatchEvent someEvent) activeTrace Status.network.code := by
  repeat' first
    | exact Program.Run.ret _
    | apply Program.Run.call

/-- The event has effects from one worker there. -/
theorem oneWorker_activeTrace : OneWorker activeTrace := by
  refine (oneWorker_iff run_activeTrace).mpr fun hredone => ?_
  obtain ⟨routing, _, _, _, _, _, htrace, hrouted, -⟩ := hredone
  simp only [activeTrace, List.cons.injEq] at htrace
  cases htrace.1
  cases hrouted

/-- A dispatch to the candidate, whose second request fails, and then to the active worker. -/
def bothTrace : Trace :=
  [⟨.enter someEvent, .ok (someRouting (some 2))⟩, ⟨.alive 2, true⟩,
    ⟨.send 2 someEvent, .ok ⟨Status.ok.code, [someRequest, someRequest]⟩⟩,
    ⟨.request someRequest, Status.ok.code⟩, ⟨.request someRequest, Status.network.code⟩,
    ⟨.recordCanary 2 false, ()⟩, ⟨.decideCanary 2, (none, none)⟩, ⟨.alive 1, true⟩,
    ⟨.send 1 someEvent, .ok ⟨Status.ok.code, [someRequest]⟩⟩,
    ⟨.request someRequest, Status.ok.code⟩, ⟨.leave, ()⟩]

theorem run_bothTrace : Run (dispatchEvent someEvent) bothTrace Status.ok.code := by
  repeat' first
    | exact Program.Run.ret _
    | apply Program.Run.call

/-- **An event is handled twice**: requests of the candidate are executed, and then requests of
the active worker. -/
theorem twoWorkers_bothTrace :
    Run (dispatchEvent someEvent) bothTrace Status.ok.code ∧
      sourcesFrom none bothTrace = [2, 2, 1] ∧ ¬ OneWorker bothTrace := by
  have hsources : sourcesFrom none bothTrace = [2, 2, 1] := rfl
  refine ⟨run_bothTrace, hsources, fun h => ?_⟩
  have hsame := h.1 2 (by rw [hsources]; decide) 1 (by rw [hsources]; decide)
  exact absurd hsame (by decide)

end Dcc.HotReload
