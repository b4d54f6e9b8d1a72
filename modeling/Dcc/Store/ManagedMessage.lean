import Dcc.Lib.Reach
import Dcc.Store.Refine

/-!
# The latest message of a publisher

`dcc_managed_message_publish_latest` reads the reference to the last message from the store,
deletes that message, creates the new one and stores its reference.  The requests are answered
later, by `dcc_managed_message_delete_result` and `dcc_managed_message_create_result`.

* `step_latest` — what a step keeps, as long as the publications of one key do not overlap;
* `latest_only` — then the server has at most one message, and the store says which.
-/

namespace Dcc.Store.Managed

open Machine

/-- `dcc_managed_message_options_t`, with a binding to the file store. -/
structure Options where
  channelId : UInt64
  load : Bool
  save : Bool
  keepPrevious : Bool
  key : CString

/-- The request of a publication that is not answered yet. -/
inductive Request
  | delete (ref : MessageRef)
  | create

/-- `dcc_managed_message_publish_state_t`. -/
structure Publication where
  options : Options
  request : Request

/-- `dcc_managed_message_publish_stage_t`, as far as it is reported. -/
inductive Stage
  | delete
  | create
  | save
  | done

/-- `dcc_managed_message_publish_result_t`; `newRef` is there when `has_new_ref` is set. -/
structure Result where
  status : Status
  stage : Stage
  newRef : Option MessageRef
  storageStatus : Status

/-- The file of the store, the messages that the server has from the publications, those that are
under way, how many were accepted, and the results that their callbacks got. -/
structure World where
  file : Option Bytes
  messages : List MessageRef
  publications : List Publication
  accepted : Nat
  results : List Result

variable (w : World)

/-- The reference that a publication starts from. -/
def oldRef (env : Env) (options : Options) : Except Status MessageRef :=
  if options.load then
    match loadManagedMessageRef env w.file options.key with
    | .error .notFound => .ok ⟨options.channelId, 0⟩
    | .error status => .error status
    | .ok (channelId, messageId) =>
      .ok ⟨if channelId = 0 then options.channelId else .ofNat channelId, .ofNat messageId⟩
  else .ok ⟨options.channelId, 0⟩

/-- The message that is replaced is deleted first. -/
def firstRequest (options : Options) (ref : MessageRef) : Request :=
  if options.keepPrevious = false ∧ ref.messageId ≠ 0 then .delete ref else .create

/-- `dcc_managed_message_publish_latest`; `build` is how the allocation of the state and
`dcc_message_builder_build_json` end, and `submit` the submission of the first request. -/
def publishLatest (options : Options) (env : Env) (build submit : Status) : World × Status :=
  if options.channelId = 0 then (w, .invalidArg)
  else
    match oldRef w env options with
    | .error status => (w, status)
    | .ok ref =>
      if build ≠ .ok then (w, build)
      else if submit ≠ .ok then (w, submit)
      else
        ({ w with
            publications := w.publications ++ [⟨options, firstRequest options ref⟩]
            accepted := w.accepted + 1 }, .ok)

/-- `dcc_managed_message_finish`. -/
def finish (i : Nat) (result : Result) : World :=
  { w with publications := w.publications.eraseIdx i, results := w.results ++ [result] }

/-- The answer to the deletion of a message: 404, or a status.  An error may hide that the message
was deleted. -/
inductive DeleteAnswer
  | missing
  | answered (status : Status) (deleted : Bool)

/-- The status of an answer: a message that is missing is as good as deleted. -/
def DeleteAnswer.result : DeleteAnswer → Status
  | .missing => .ok
  | .answered status _ => status

/-- What an answer leaves on the server. -/
def DeleteAnswer.erase (answer : DeleteAnswer) (ref : MessageRef) : List MessageRef :=
  match answer with
  | .missing => w.messages
  | .answered _ deleted => if deleted then w.messages.erase ref else w.messages

/-- `dcc_managed_message_delete_result`; `submit` is the submission of the next request. -/
def deleteResult (i : Nat) (answer : DeleteAnswer) (submit : Status) : World :=
  match w.publications[i]? with
  | some ⟨options, .delete ref⟩ =>
    let w := { w with messages := answer.erase w ref }
    if answer.result ≠ .ok then finish w i ⟨answer.result, .delete, none, .ok⟩
    else if submit ≠ .ok then finish w i ⟨submit, .create, none, .ok⟩
    else { w with publications := w.publications.set i ⟨options, .create⟩ }
  | _ => w

/-- `dcc_managed_message_create_result`: `created` is the message that the server has made, and
`answer` what the response says about it. -/
def createResult (i : Nat) (created : Option UInt64) (answer : Except Status UInt64) (env : Env) :
    World :=
  match w.publications[i]? with
  | some ⟨options, .create⟩ =>
    let w := { w with
      messages := w.messages ++ (created.map (MessageRef.mk options.channelId)).toList }
    match answer with
    | .error status => finish w i ⟨status, .create, none, .ok⟩
    | .ok id =>
      let ref : MessageRef := ⟨options.channelId, id⟩
      if options.save then
        match saveManagedMessageRef env w.file options.key ref with
        | (file, .ok) => finish { w with file := file } i ⟨.ok, .done, some ref, .ok⟩
        | (file, status) => finish { w with file := file } i ⟨status, .save, some ref, status⟩
      else finish w i ⟨.ok, .done, some ref, .ok⟩
  | _ => w

/-- A call of the application, an answer of the server, or any call of the store. -/
inductive Move
  | publish (options : Options) (env : Env) (build submit : Status)
  | deleted (i : Nat) (answer : DeleteAnswer) (submit : Status)
  | created (i : Nat) (created : Option UInt64) (answer : Except Status UInt64) (env : Env)
  | store (call : Call) (env : Env)

def step : Move → World
  | .publish options env build submit => (publishLatest w options env build submit).1
  | .deleted i answer submit => deleteResult w i answer submit
  | .created i created answer env => createResult w i created answer env
  | .store call env => { w with file := (call.run env w.file).1 }

/-! ## Publications one after another -/

/-- The options of a publication that replaces the last one under a key. -/
def Replaces (key : CString) (options : Options) : Prop :=
  options.key = key ∧ options.load = true ∧ options.save = true ∧ options.keepPrevious = false ∧
    options.channelId ≠ 0

/-- The publications of the key do not overlap, and no other call writes it.  The server answers
what it did: a message is missing only when it is, success means that the message is gone, or
there, and no creation is lost on the way back or in the store. -/
def Permitted (key : CString) (w : World) : Move → Prop
  | .publish options _ _ _ => w.publications = [] ∧ (options.channelId ≠ 0 → Replaces key options)
  | .deleted i answer _ => ∀ options ref, w.publications[i]? = some ⟨options, .delete ref⟩ →
      match answer with
      | .missing => ref ∉ w.messages
      | .answered status deleted => status = .ok → deleted = true
  | .created i created answer env => ∀ options, w.publications[i]? = some ⟨options, .create⟩ →
      match answer with
      | .error status => created = none ∧ status ≠ .ok
      | .ok id => created = some id ∧ id ≠ 0 ∧
          (saveManagedMessageRef env w.file key ⟨options.channelId, id⟩).2 = .ok
  | .store call _ => ∀ map, call.effect map key.bytes = map key.bytes

/-- The store refers to a message. -/
def Refers (key : CString) (w : World) (ref : MessageRef) : Prop :=
  keyValid key = true ∧ ref.channelId ≠ 0 ∧ ref.messageId ≠ 0 ∧
    meaning w.file key.bytes = some (refText ref).bytes

/-- **What holds between two steps.**  The server has no message, or the one of the store, and the
publication that is under way is about to delete that message, or has. -/
structure Latest (key : CString) (w : World) : Prop where
  known : w.messages = [] ∨ ∃ ref, w.messages = [ref] ∧ Refers key w ref
  one : w.publications.length ≤ 1
  under : ∀ p ∈ w.publications, Replaces key p.options ∧ match p.request with
    | .delete ref => w.messages ⊆ [ref]
    | .create => w.messages = []
  counted : w.accepted = w.results.length + w.publications.length
  newest : w.publications = [] → ∀ result, w.results.getLast? = some result →
    result.status = .ok → w.messages = result.newRef.toList ∧ result.newRef.isSome

section

variable {key : CString} {w} {env : Env} {options : Options} {ref : MessageRef}

/-- A file that cannot be read is not taken for one that is not there. -/
theorem load_unreadable {file : Option Bytes} (hkey : keyValid key = true)
    (h : ¬ Readable env file) :
    ∃ status, loadManagedMessageRef env file key = .error status ∧ status ≠ .notFound := by
  have hread : ∃ status, readAll env file = .error status ∧ status ≠ .notFound ∧ status ≠ .ok := by
    rcases readAll_cases env file with ⟨status, hfile, hok, hfound, -⟩ | ⟨hfile, hnone⟩ |
      ⟨data, hfile, hsome⟩
    · exact ⟨status, hfile, hfound, hok⟩
    · subst hnone
      cases hfault : env.read with
      | none => exact absurd ⟨hfault, by decide⟩ h
      | some fault => simp [readAll, hfault] at hfile; exact absurd hfile fault.status_ne.2
    · subst hsome
      unfold readAll at hfile
      cases hfault : env.read with
      | some fault => rw [hfault] at hfile; cases hfile
      | none =>
        rw [hfault] at hfile
        simp only at hfile
        split at hfile
        · cases hfile
        · next hlength => exact absurd ⟨hfault, by simpa using hlength⟩ h
  obtain ⟨status, hfile, hfound, hok⟩ := hread
  refine ⟨status, ?_, hfound⟩
  simp only [loadManagedMessageRef, storeGet, hkey, fileGet, hfile]
  cases status <;> simp at hok ⊢

theorem oldRef_refers (hoptions : Replaces key options) (h : Refers key w ref) :
    oldRef w env options = .ok ref ∨ ∃ status, oldRef w env options = .error status := by
  obtain ⟨rfl, hload, -⟩ := hoptions
  obtain ⟨hkey, hchannel, -, hvalue⟩ := h
  rw [oldRef, if_pos hload]
  by_cases hread : Readable env w.file
  · rw [loadManagedMessageRef_eq hkey hread hvalue]
    have hne : ref.channelId.toNat ≠ 0 := fun hzero => hchannel (UInt64.toNat_inj.mp hzero)
    simp [hne]
  · obtain ⟨status, hstatus, hfound⟩ := load_unreadable hkey hread
    rw [hstatus]
    cases status <;> simp at hfound ⊢

theorem single {p : Publication} {i : Nat} {publications : List Publication}
    (hone : publications.length ≤ 1) (hp : publications[i]? = some p) :
    publications = [p] ∧ i = 0 := by
  match publications, i, hp with
  | [q], 0, hp => exact ⟨by simpa using hp, rfl⟩
  | [q], i + 1, hp => simp at hp

theorem latest_finish {w' : World} {result : Result} (hcounted : w.accepted = w.results.length + 1)
    (hw : w'.publications = [] ∧ w'.accepted = w.accepted ∧ w'.results = w.results ++ [result])
    (hknown : w'.messages = [] ∨ ∃ ref, w'.messages = [ref] ∧ Refers key w' ref)
    (hresult : result.status = .ok → w'.messages = result.newRef.toList ∧ result.newRef.isSome) :
    Latest key w' := by
  obtain ⟨hpublications, haccepted, hresults⟩ := hw
  refine ⟨hknown, by simp [hpublications], by simp [hpublications], ?_, ?_⟩
  · simp [hpublications, haccepted, hresults, hcounted]
  · intro _ last hlast
    rw [hresults, List.getLast?_concat] at hlast
    cases hlast
    exact hresult

theorem publishLatest_latest (h : Latest key w) {build submit : Status}
    (hok : Permitted key w (.publish options env build submit)) :
    Latest key (publishLatest w options env build submit).1 := by
  obtain ⟨hnone, hreplaces⟩ := hok
  unfold publishLatest
  split
  · exact h
  · next hchannel =>
    have hoptions := hreplaces hchannel
    split
    · exact h
    · next old hold =>
      split_ifs
      · exact h
      · exact h
      · refine ⟨h.known, by simp [hnone], ?_, by simpa [hnone] using h.counted, by simp⟩
        simp only [hnone, List.nil_append, List.mem_singleton, forall_eq]
        refine ⟨hoptions, ?_⟩
        rcases h.known with hempty | ⟨ref, hmessages, href⟩
        · rw [hempty]
          split <;> simp
        · have hsame : old = ref := by
            rcases oldRef_refers hoptions href with hload | ⟨status, hload⟩
            · exact Except.ok.inj (hold.symm.trans hload)
            · cases hold.symm.trans hload
          rw [firstRequest, if_pos ⟨hoptions.2.2.2.1, hsame ▸ href.2.2.1⟩, hmessages, hsame]
          exact List.Subset.refl _

/-- What is left of the messages when the message of the store may be deleted. -/
theorem known_of_sublist (h : Latest key w) {messages : List MessageRef}
    (hsub : messages.Sublist w.messages) :
    messages = [] ∨ ∃ ref, messages = [ref] ∧ Refers key w ref := by
  rcases h.known with hempty | ⟨ref, hmessages, href⟩
  · exact .inl (List.sublist_nil.mp (hempty ▸ hsub))
  · rw [hmessages, List.sublist_singleton] at hsub
    exact hsub.imp_right fun hsame => ⟨ref, hsame, href⟩

theorem deleteResult_latest (h : Latest key w) {i : Nat} {answer : DeleteAnswer} {submit : Status}
    (hok : Permitted key w (.deleted i answer submit)) :
    Latest key (deleteResult w i answer submit) := by
  unfold deleteResult
  split
  · next options ref hp =>
    obtain ⟨hone, rfl⟩ := single h.one hp
    obtain ⟨hoptions, hsub⟩ := h.under _ (hone ▸ List.mem_singleton_self _)
    have hcounted : w.accepted = w.results.length + 1 := by simpa [hone] using h.counted
    have hleft : (answer.erase w ref).Sublist w.messages := by
      unfold DeleteAnswer.erase
      split
      · exact List.Sublist.refl _
      · split
        · exact List.erase_sublist
        · exact List.Sublist.refl _
    have hanswer := hok options ref hp
    have hgone : answer.result = .ok → answer.erase w ref = [] := by
      intro hresult
      cases answer with
      | missing =>
        rcases h.known with hempty | ⟨old, hmessages, -⟩
        · exact hempty
        · obtain rfl := List.mem_singleton.mp (hsub (hmessages ▸ List.mem_singleton_self old))
          exact absurd (hmessages ▸ List.mem_singleton_self old) hanswer
      | answered status deleted =>
        rw [DeleteAnswer.erase, if_pos (hanswer hresult)]
        rcases h.known with hempty | ⟨old, hmessages, -⟩
        · rw [hempty, List.erase_nil]
        · obtain rfl := List.mem_singleton.mp (hsub (hmessages ▸ List.mem_singleton_self old))
          rw [hmessages, List.erase_cons_head]
    simp only
    split_ifs with hstatus hsubmit
    · exact latest_finish hcounted ⟨by simp [finish, hone], rfl, rfl⟩
        (known_of_sublist h hleft) fun hok => absurd hok hstatus
    · exact latest_finish hcounted ⟨by simp [finish, hone], rfl, rfl⟩
        (known_of_sublist h hleft) fun hok => absurd hok hsubmit
    · have hempty := hgone (not_not.mp hstatus)
      refine ⟨.inl hempty, by simp [hone], ?_, by simpa [hone] using h.counted, by simp [hone]⟩
      simp only [hone, List.set_cons_zero, List.mem_singleton, forall_eq]
      exact ⟨hoptions, hempty⟩
  · exact h

theorem createResult_latest (h : Latest key w) {i : Nat} {created : Option UInt64}
    {answer : Except Status UInt64} (hok : Permitted key w (.created i created answer env)) :
    Latest key (createResult w i created answer env) := by
  unfold createResult
  split
  · next options hp =>
    obtain ⟨hone, rfl⟩ := single h.one hp
    obtain ⟨⟨hkey, -, hsave, -, hchannel⟩, hempty⟩ := h.under _ (hone ▸ List.mem_singleton_self _)
    simp only at hkey hsave hchannel hempty
    have hcounted : w.accepted = w.results.length + 1 := by simpa [hone] using h.counted
    have hanswer := hok options hp
    cases answer with
    | error status =>
      obtain ⟨rfl, hstatus⟩ := hanswer
      exact latest_finish hcounted ⟨by simp [finish, hone], rfl, rfl⟩
        (.inl (by simp [finish, hempty])) fun hok => absurd hok hstatus
    | ok id =>
      obtain ⟨rfl, hid, hsaved⟩ := hanswer
      subst hkey
      rw [saveManagedMessageRef_eq] at hsaved
      rcases storeSet_cases env w.file options.key (refText ⟨options.channelId, id⟩) with
        ⟨hstatus, -⟩ | ⟨hkey, hvalue, hdone⟩
      · exact absurd hsaved hstatus
      · have hnow : w.messages ++ [⟨options.channelId, id⟩] = [⟨options.channelId, id⟩] := by
          rw [hempty, List.nil_append]
        simp only [hsave, if_true, saveManagedMessageRef_eq, hdone]
        refine latest_finish hcounted ⟨by simp [finish, hone], rfl, rfl⟩
          (.inr ⟨⟨options.channelId, id⟩, hnow, hkey, hchannel, hid, ?_⟩) fun _ => ⟨hnow, rfl⟩
        exact (congrFun (meaning_setText w.file hkey hvalue) _).trans (Function.update_self _ _ _)
  · exact h

theorem step_latest (h : Latest key w) {move : Move} (hok : Permitted key w move) :
    Latest key (step w move) := by
  cases move with
  | publish options env build submit => exact publishLatest_latest h hok
  | deleted i answer submit => exact deleteResult_latest h hok
  | created i created answer env => exact createResult_latest h hok
  | store call env =>
    have hvalue : meaning (step w (.store call env)).file key.bytes = meaning w.file key.bytes := by
      obtain ⟨hfailed, hdone⟩ := run_meaning env w.file call
      rw [step]
      by_cases hstatus : (call.run env w.file).2 = .ok
      · rw [hdone hstatus, hok]
      · rw [hfailed hstatus]
    exact ⟨h.known.imp_right fun ⟨ref, hmessages, hkey, hchannel, hid, href⟩ =>
      ⟨ref, hmessages, hkey, hchannel, hid, hvalue.trans href⟩, h.one, h.under, h.counted, h.newest⟩

end

/-- **At most one message is left.**  In every run in which the publications of a key come one
after another and nothing is lost, whatever else fails: each accepted publication is under way or
has one result; the server has at most one message, the one that the store is read as; and after a
result that is OK it is the message of that result. -/
theorem latest_only {key : CString} {file : Option Bytes} {w : World}
    (h : Reach step (Permitted key) ⟨file, [], [], 0, []⟩ w) :
    w.accepted = w.results.length + w.publications.length ∧
      (w.messages = [] ∨ ∃ ref, w.messages = [ref] ∧ ∀ env, Readable env w.file →
        loadManagedMessageRef env w.file key = .ok (ref.channelId.toNat, ref.messageId.toNat)) ∧
      (w.publications = [] → ∀ result, w.results.getLast? = some result → result.status = .ok →
        ∃ ref, result.newRef = some ref ∧ w.messages = [ref]) := by
  have hlatest : Latest key w :=
    h.invariant ⟨.inl rfl, by simp, by simp, rfl, by simp⟩ fun _ _ hw hok => step_latest hw hok
  refine ⟨hlatest.counted, hlatest.known.imp_right fun ⟨ref, hmessages, href⟩ =>
    ⟨ref, hmessages, fun env hread => loadManagedMessageRef_eq href.1 hread href.2.2.2⟩, ?_⟩
  intro hnone result hlast hstatus
  obtain ⟨hmessages, hsome⟩ := hlatest.newest hnone result hlast hstatus
  obtain ⟨ref, href⟩ := Option.isSome_iff_exists.mp hsome
  exact ⟨ref, href, by rw [hmessages, href]; rfl⟩

theorem k_noNul : (0 : UInt8) ∉ [0x6b] := by decide

theorem k_fits : [(0x6b : UInt8)].length + 1 < 2 ^ 63 := by decide

/-- A publication under the key `k`. -/
def latestOptions : Options := ⟨1, true, true, false, ⟨[0x6b], k_noNul, k_fits⟩⟩

/-- Two publications: the second deletes the message of the first. -/
theorem latest_only_twice :
    let w := [.publish latestOptions .good .ok .ok, .created 0 (some 7) (.ok 7) .good,
      .publish latestOptions .good .ok .ok, .deleted 0 (.answered .ok true) .ok,
      .created 0 (some 8) (.ok 8) .good].foldl step ⟨none, [], [], 0, []⟩
    w.accepted = 2 ∧ w.messages = [⟨1, 8⟩] := by
  have hpublish : ∀ w : World, w.publications = [] →
      Permitted latestOptions.key w (.publish latestOptions .good .ok .ok) :=
    fun _ hnone => ⟨hnone, fun _ => ⟨rfl, rfl, rfl, rfl, by decide⟩⟩
  have hdeleted : ∀ w : World,
      Permitted latestOptions.key w (.deleted 0 (.answered .ok true) .ok) :=
    fun _ _ _ _ _ => rfl
  have hcreated : ∀ (w : World) (id : UInt64), id ≠ 0 →
      w.publications[0]? = some ⟨latestOptions, .create⟩ →
      (saveManagedMessageRef .good w.file latestOptions.key ⟨1, id⟩).2 = .ok →
      Permitted latestOptions.key w (.created 0 (some id) (.ok id) .good) := by
    intro w id hid hw hsaved options hoptions
    cases hw.symm.trans hoptions
    exact ⟨rfl, hid, hsaved⟩
  have hstart : Reach step (Permitted latestOptions.key) ⟨none, [], [], 0, []⟩
      ⟨none, [], [], 0, []⟩ := .start
  have hfirst := (hstart.step (hpublish _ rfl)).step (hcreated _ 7 (by decide) rfl (by decide +kernel))
  have hsecond := (hfirst.step (hpublish _ rfl)).step (hdeleted _)
  have h := hsecond.step (hcreated _ 8 (by decide) rfl (by decide +kernel))
  obtain ⟨haccepted, -, hnewest⟩ := latest_only h
  obtain ⟨ref, href, hmessages⟩ := hnewest rfl _ rfl rfl
  exact ⟨haccepted, hmessages.trans (congrArg (fun ref => [ref]) (Option.some.inj href.symm))⟩

end Dcc.Store.Managed
