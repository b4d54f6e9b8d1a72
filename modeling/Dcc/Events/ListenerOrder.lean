import Mathlib.Data.List.Forall2
import Mathlib.Data.List.Induction
import Mathlib.Data.List.Nodup
import Mathlib.Data.List.Perm.Basic
import Mathlib.Logic.Function.Basic
import Dcc.Events.Listeners

/-!
# The order of listeners

* `Ledger` — which listeners are registered, in the order in which they were;
* `worldStep_kept` — what every step keeps: a list holds the listeners that are registered, each
  once; a dispatch calls those of its snapshot one after another, up to and including the first
  that cancels; identifiers are fresh, and what is retained and not yet released is on a list or
  in a snapshot;
* `swapOut_eq_iff` — a removal keeps the order only where it takes one of the last two;
* `listeners_kept_in_order` — the lists and the snapshots are in the order of registration
  throughout a run exactly when each of its steps keeps it.
-/

namespace Dcc.Events

/-! ## The ledger -/

/-- What was asked of a bus: the listeners that are registered, in the order of registration, the
identifiers that were given out, and what each dispatch should call. -/
structure Ledger where
  registered : Int → List Listener
  issued : List (Int × UInt64)
  expected : List (List Listener)

/-- What a step and its answer say. -/
def Ledger.note (ledger : Ledger) : Step → Answer → Ledger
  | .add type cb userData retain release _, .id id =>
    { ledger with
      registered := Function.update ledger.registered type
        (ledger.registered type ++ [⟨id, cb.getD 0, userData, retain, release⟩])
      issued := ledger.issued ++ [(type, id)] }
  | .remove type id, .status .ok =>
    { ledger with
      registered := Function.update ledger.registered type
        ((ledger.registered type).filter (·.id ≠ id)) }
  | .dispatch _ event _ _, .status status =>
    if status = .invalidArg then ledger
    else { ledger with expected := ledger.expected ++ [ledger.registered event.type] }
  | .deinit, _ =>
    { ledger with
      registered := fun type => if typeValid type then [] else ledger.registered type }
  | _, _ => ledger

/-- A bus and its ledger. -/
structure World where
  bus : Bus
  ledger : Ledger

/-- One step of both. -/
def worldStep (world : World) (action : Step) : World :=
  ⟨(step world.bus action).1, world.ledger.note action (step world.bus action).2⟩

/-- A run from `dcc_event_bus_init`. -/
def run (steps : List Step) : World :=
  steps.foldl worldStep ⟨Bus.init, ⟨fun _ => [], [], []⟩⟩

theorem run_concat (steps : List Step) (action : Step) :
    run (steps ++ [action]) = worldStep (run steps) action := by
  rw [run, List.foldl_append]
  rfl

/-! ## What a dispatch calls -/

/-- The calls of a dispatch so far: the listeners of the snapshot one after another, up to the one
that cancelled the event, and all of them where none did. -/
structure Calls (dispatch : Dispatch) (count : Nat) : Prop where
  bound : count ≤ dispatch.snapshot.length
  invoked : dispatch.invoked = dispatch.snapshot.take count
  cancelled : ∀ place ∈ dispatch.cancels, place + 1 = count
  place : match dispatch.phase with
    | .ready i => i = count ∧ dispatch.event.cancelled = 0 ∧ dispatch.cancels = []
    | .inside i => i + 1 = count ∧ (dispatch.event.cancelled = 0 ↔ dispatch.cancels = [])
    | .releasing i =>
      i ≤ dispatch.snapshot.length ∧ (count < dispatch.snapshot.length → dispatch.cancels ≠ [])
    | .finished => count < dispatch.snapshot.length → dispatch.cancels ≠ []

/-- A listener with both functions or none. -/
def Paired (listener : Listener) : Prop :=
  listener.retainUserData.isSome = listener.releaseUserData.isSome

/-- A dispatch serves the listeners that were registered when it began. -/
structure Served (dispatch : Dispatch) (expected : List Listener) : Prop where
  distinct : (expected.map Listener.id).Nodup
  snapshot : dispatch.status = .ok → dispatch.snapshot.Perm expected
  failed : dispatch.status ≠ .ok → dispatch.snapshot = [] ∧ inlineSnapshotCap < expected.length
  paired : ∀ listener ∈ dispatch.snapshot, Paired listener
  calls : ∃ count, Calls dispatch count

variable {dispatch : Dispatch}

theorem calls_advance {count : Nat} (h : Calls dispatch count) :
    ∃ count, Calls dispatch.advance count := by
  obtain ⟨hbound, hinvoked, hcancelled, hplace⟩ := h
  obtain ⟨status, event, snapshot, phase, invoked, cancels⟩ := dispatch
  cases phase with
  | ready i =>
    obtain ⟨rfl, hzero, hnone⟩ := hplace
    simp only at hbound hinvoked hzero hnone
    subst hnone
    cases hlistener : snapshot[i]? with
    | some listener =>
      refine ⟨i + 1, ?_⟩
      obtain ⟨hlt, hget⟩ := List.getElem?_eq_some_iff.mp hlistener
      simp only [Dispatch.advance, hlistener]
      refine ⟨hlt, ?_, by simp, rfl, by simp [hzero]⟩
      rw [hinvoked, List.take_add_one, hlistener]
      rfl
    | none =>
      have hend := List.getElem?_eq_none_iff.mp hlistener
      refine ⟨i, ?_⟩
      simp only [Dispatch.advance, hlistener]
      exact ⟨hbound, hinvoked, by simp, Nat.zero_le _, fun hlt => absurd hlt (Nat.not_lt.mpr hend)⟩
  | inside i =>
    obtain ⟨rfl, hzero⟩ := hplace
    simp only at hbound hinvoked hcancelled hzero
    refine ⟨i + 1, ?_⟩
    by_cases hcancel : event.cancelled = 0
    · have hnone := hzero.mp hcancel
      subst hnone
      simp only [Dispatch.advance, hcancel, ne_eq, not_true_eq_false, if_false]
      exact ⟨hbound, hinvoked, by simp, rfl, hcancel, rfl⟩
    · simp only [Dispatch.advance, ne_eq, hcancel, not_false_eq_true, if_true]
      exact ⟨hbound, hinvoked, hcancelled, Nat.zero_le _, fun _ hnone => hcancel (hzero.mpr hnone)⟩
  | releasing i =>
    obtain ⟨hle, hall⟩ := hplace
    refine ⟨count, ?_⟩
    by_cases hlt : i < snapshot.length
    · simp only [Dispatch.advance, if_pos hlt]
      exact ⟨hbound, hinvoked, hcancelled, hlt, hall⟩
    · simp only [Dispatch.advance, if_neg hlt]
      exact ⟨hbound, hinvoked, hcancelled, hall⟩
  | finished => exact ⟨count, hbound, hinvoked, hcancelled, hplace⟩

theorem calls_cancel {count : Nat} (h : Calls dispatch count) :
    Calls dispatch.cancel count := by
  obtain ⟨status, event, snapshot, phase, invoked, cancels⟩ := dispatch
  cases phase with
  | inside i =>
    obtain ⟨hbound, hinvoked, hcancelled, hplace, hzero⟩ := h
    have hone : (1 : UInt8) ≠ 0 := by decide
    have hsome : cancels ++ [i] ≠ [] := by simp
    refine ⟨hbound, hinvoked, fun place hmem => ?_, hplace,
      fun hzero => absurd hzero hone, fun hnone => absurd hnone hsome⟩
    rcases List.mem_append.mp hmem with hmem | hmem
    · exact hcancelled place hmem
    · rw [List.mem_singleton.mp hmem]
      exact hplace
  | _ => exact h

/-! ## What is retained -/

/-- What a dispatch has retained and not yet released. -/
def Dispatch.held (dispatch : Dispatch) : List Listener :=
  match dispatch.phase with
  | .releasing i => dispatch.snapshot.drop i
  | .finished => []
  | _ => dispatch.snapshot

theorem held_advance (dispatch : Dispatch) :
    dispatch.held = dispatch.releases ++ dispatch.advance.held := by
  obtain ⟨status, event, snapshot, phase, invoked, cancels⟩ := dispatch
  cases phase with
  | ready i =>
    simp only [Dispatch.held, Dispatch.releases, Dispatch.advance, List.nil_append]
    cases snapshot[i]? <;> rfl
  | inside i =>
    simp only [Dispatch.held, Dispatch.releases, Dispatch.advance, List.nil_append]
    by_cases hcancel : event.cancelled ≠ 0
    · rw [if_pos hcancel]
      rfl
    · rw [if_neg hcancel]
  | releasing i =>
    simp only [Dispatch.held, Dispatch.releases, Dispatch.advance]
    by_cases hlt : i < snapshot.length
    · rw [if_pos hlt, List.getElem?_eq_getElem hlt]
      exact (List.drop_eq_getElem_cons hlt).trans rfl
    · rw [if_neg hlt, List.getElem?_eq_none (Nat.not_lt.mp hlt)]
      exact List.drop_eq_nil_of_le (Nat.not_lt.mp hlt)
  | finished => rfl

theorem held_cancel (dispatch : Dispatch) : dispatch.cancel.held = dispatch.held := by
  obtain ⟨status, event, snapshot, phase, invoked, cancels⟩ := dispatch
  cases phase <;> rfl

@[simp] theorem advance_event (dispatch : Dispatch) :
    dispatch.advance.event = dispatch.event := by
  rw [Dispatch.advance]
  grind

@[simp] theorem advance_snapshot (dispatch : Dispatch) :
    dispatch.advance.snapshot = dispatch.snapshot := by
  rw [Dispatch.advance]
  grind

@[simp] theorem advance_status (dispatch : Dispatch) :
    dispatch.advance.status = dispatch.status := by
  rw [Dispatch.advance]
  grind

@[simp] theorem cancel_type (dispatch : Dispatch) :
    dispatch.cancel.event.type = dispatch.event.type := by
  rw [Dispatch.cancel]
  grind

@[simp] theorem cancel_snapshot (dispatch : Dispatch) :
    dispatch.cancel.snapshot = dispatch.snapshot := by
  rw [Dispatch.cancel]
  grind

@[simp] theorem cancel_status (dispatch : Dispatch) :
    dispatch.cancel.status = dispatch.status := by
  rw [Dispatch.cancel]
  grind

/-- How often the dispatches hold a listener of a type. -/
def held (dispatches : List Dispatch) (type : Int) (listener : Listener) : Nat :=
  (dispatches.map fun dispatch =>
    if dispatch.event.type = type then dispatch.held.count listener else 0).sum

theorem held_append (dispatches : List Dispatch) (dispatch : Dispatch) (type : Int)
    (listener : Listener) :
    held (dispatches ++ [dispatch]) type listener = held dispatches type listener +
      if dispatch.event.type = type then dispatch.held.count listener else 0 := by
  simp [held]

variable {dispatches : List Dispatch}

theorem held_set {index : Nat}
    (h : dispatches[index]? = some dispatch) (other : Dispatch) (type : Int)
    (listener : Listener) :
    held (dispatches.set index other) type listener +
        (if dispatch.event.type = type then dispatch.held.count listener else 0) =
      held dispatches type listener +
        if other.event.type = type then other.held.count listener else 0 := by
  induction dispatches generalizing index with
  | nil => simp at h
  | cons head tail ih =>
    cases index with
    | zero =>
      cases h
      simp only [List.set_cons_zero, held, List.map_cons, List.sum_cons]
      omega
    | succ index =>
      have hrest := ih h
      simp only [List.set_cons_succ, held, List.map_cons, List.sum_cons] at hrest ⊢
      omega

theorem retains_count (type other : Int) (listeners : List Listener) (listener : Listener) :
    (retains type listeners).count (other, listener) =
      if type = other ∧ listener.retainUserData.isSome then listeners.count listener else 0 := by
  induction listeners with
  | nil => simp [retains]
  | cons head tail ih => grind [retains]

variable {listeners : List Listener}

theorem releases_count (type other : Int)
    (hpaired : ∀ listener ∈ listeners, Paired listener) (listener : Listener) :
    (releases type listeners).count (other, listener) =
      if type = other ∧ listener.retainUserData.isSome then listeners.count listener else 0 := by
  induction listeners with
  | nil => simp [releases]
  | cons head tail ih =>
    have hhead := hpaired head List.mem_cons_self
    have htail := ih fun listener hmem => hpaired listener (List.mem_cons_of_mem _ hmem)
    rw [Paired] at hhead
    grind [releases]

/-! ## Removal -/

variable {items : List Listener} {listener : Listener}

variable {i : Nat}

theorem swapOut_cases (h : items[i]? = some listener) :
    (∃ before, items = before ++ [listener] ∧ before.length = i ∧ swapOut items i = before) ∨
    (∃ before between last, items = before ++ listener :: (between ++ [last]) ∧
      before.length = i ∧ swapOut items i = before ++ last :: between) := by
  obtain ⟨hlt, hget⟩ := List.getElem?_eq_some_iff.mp h
  have hsplit : items = items.take i ++ listener :: items.drop (i + 1) := by
    rw [← hget, ← List.drop_eq_getElem_cons hlt, List.take_append_drop]
  have hlength : (items.take i).length = i := by
    rw [List.length_take]
    omega
  generalize items.take i = before at hsplit hlength
  generalize items.drop (i + 1) = rest at hsplit
  subst hsplit
  rcases List.eq_nil_or_concat rest with rfl | ⟨between, last, rfl⟩
  · refine .inl ⟨before, rfl, hlength, ?_⟩
    subst hlength
    simp [swapOut]
  · refine .inr ⟨before, between, last, by rw [List.concat_eq_append], hlength, ?_⟩
    subst hlength
    rw [List.concat_eq_append, swapOut, ← List.cons_append, ← List.append_assoc,
      List.getLast?_concat]
    simp only [List.append_assoc, List.cons_append, List.set_append_right _ _ (Nat.le_refl _),
      Nat.sub_self, List.set_cons_zero, List.dropLast_append_cons]
    rw [← List.cons_append]
    exact congrArg (before ++ ·) List.dropLast_concat

theorem filter_others {id : UInt64}
    (h : id ∉ listeners.map Listener.id) : listeners.filter (·.id ≠ id) = listeners := by
  refine List.filter_eq_self.mpr fun other hmem => ?_
  grind

theorem swapOut_perm (hnodup : (items.map Listener.id).Nodup) (h : items[i]? = some listener) :
    (swapOut items i).Perm (items.filter (·.id ≠ listener.id)) := by
  rcases swapOut_cases h with ⟨before, rfl, -, hswap⟩ | ⟨before, between, last, rfl, -, hswap⟩
  · rw [hswap, List.filter_append, filter_others (by grind)]
    simp
  · have hbefore : listener.id ∉ before.map Listener.id := by grind
    have hafter : listener.id ∉ (between ++ [last]).map Listener.id := by grind
    rw [hswap, List.filter_append, filter_others hbefore, List.filter_cons_of_neg (by simp),
      filter_others hafter]
    exact (List.perm_append_singleton last between).symm.append_left before

/-- **A removal keeps the order** exactly where it takes the last listener or the one before it. -/
theorem swapOut_eq_iff (hnodup : (items.map Listener.id).Nodup) (h : items[i]? = some listener) :
    swapOut items i = items.filter (·.id ≠ listener.id) ↔ items.length ≤ i + 2 := by
  rcases swapOut_cases h with ⟨before, rfl, hi, hswap⟩ | ⟨before, between, last, rfl, hi, hswap⟩
  · rw [hswap, List.filter_append, filter_others (by grind)]
    simp
    omega
  · have hbefore : listener.id ∉ before.map Listener.id := by grind
    have hafter : listener.id ∉ (between ++ [last]).map Listener.id := by grind
    rw [hswap, List.filter_append, filter_others hbefore, List.filter_cons_of_neg (by simp),
      filter_others hafter, List.append_cancel_left_eq]
    cases between with
    | nil => simp; omega
    | cons first between =>
      constructor
      · intro heq
        have hsame : last = first := (List.cons.inj heq).1
        subst hsame
        grind
      · intro hle
        simp at hle
        omega

theorem swapOut_cons_perm
    (h : items[i]? = some listener) : (listener :: swapOut items i).Perm items := by
  rcases swapOut_cases h with ⟨before, rfl, -, hswap⟩ | ⟨before, between, last, rfl, -, hswap⟩
  · rw [hswap]
    exact (List.perm_append_singleton listener before).symm
  · rw [hswap]
    refine List.Perm.trans ?_ List.perm_middle.symm
    exact ((List.perm_append_singleton last between).symm.append_left before).cons listener

/-! ## What every step keeps -/

/-- What holds of a bus and its ledger, in any order of registrations, removals and dispatches. -/
structure Kept (bus : Bus) (ledger : Ledger) : Prop where
  current : ∀ type, (bus.listeners type).items.Perm (ledger.registered type)
  ascending : ∀ type, (ledger.registered type).Pairwise (·.id < ·.id)
  known : ∀ type, ∀ listener ∈ ledger.registered type, (type, listener.id) ∈ ledger.issued
  below : ∀ issue ∈ ledger.issued, (bus.listeners issue.1).nextId = 0 ∨
    issue.2 < (bus.listeners issue.1).nextId
  fresh : ledger.issued.Nodup
  paired : ∀ type, ∀ listener ∈ ledger.registered type, Paired listener
  served : List.Forall₂ Served bus.dispatches ledger.expected
  balance : ∀ type listener, bus.retained.count (type, listener) =
    bus.released.count (type, listener) + if listener.retainUserData.isSome then
      (bus.listeners type).items.count listener + held bus.dispatches type listener else 0

variable {bus : Bus} {ledger : Ledger}

theorem Kept.distinct (h : Kept bus ledger) (type : Int) :
    ((ledger.registered type).map Listener.id).Nodup := by
  refine List.Pairwise.map _ (fun a b hlt => ?_) (h.ascending type)
  exact UInt64.ne_of_lt hlt

theorem Kept.items_distinct (h : Kept bus ledger) (type : Int) :
    ((bus.listeners type).items.map Listener.id).Nodup :=
  ((h.current type).map _).nodup_iff.mpr (h.distinct type)

theorem Kept.congr {bus other : Bus} (h : Kept bus ledger)
    (hitems : ∀ type, (other.listeners type).items = (bus.listeners type).items)
    (hids : ∀ type, (other.listeners type).nextId = (bus.listeners type).nextId)
    (hdispatches : other.dispatches = bus.dispatches) (hretained : other.retained = bus.retained)
    (hreleased : other.released = bus.released) : Kept other ledger where
  current type := by rw [hitems]; exact h.current type
  ascending := h.ascending
  known := h.known
  below issue hmem := by rw [hids]; exact h.below issue hmem
  fresh := h.fresh
  paired := h.paired
  served := by rw [hdispatches]; exact h.served
  balance type listener := by
    rw [hretained, hreleased, hitems, hdispatches]
    exact h.balance type listener

theorem setList_same (bus : Bus) (type : Int) (list : ListenerList) :
    (bus.setList type list).listeners type = list := if_pos rfl

theorem setList_other (bus : Bus) {type other : Int} (h : other ≠ type) (list : ListenerList) :
    (bus.setList type list).listeners other = bus.listeners other := if_neg h

@[simp] theorem setList_dispatches (bus : Bus) (type : Int) (list : ListenerList) :
    (bus.setList type list).dispatches = bus.dispatches := rfl

@[simp] theorem setList_released (bus : Bus) (type : Int) (list : ListenerList) :
    (bus.setList type list).released = bus.released := rfl

theorem reserveListener_spec {list after : ListenerList} {memory : Bool}
    (h : reserveListener list memory = some after) :
    after.items = list.items ∧ after.nextId = list.nextId := by
  rw [reserveListener] at h
  grind

theorem lt_next {id next : UInt64} (h : id = next ∨ id < next) : next + 1 = 0 ∨ id < next + 1 := by
  rw [UInt64.lt_iff_toNat_lt, ← UInt64.toNat_inj, UInt64.toNat_add]
  rw [UInt64.lt_iff_toNat_lt, ← UInt64.toNat_inj] at h
  have hnext := next.toNat_lt
  have hone : (1 : UInt64).toNat = 1 := rfl
  have hzero : (0 : UInt64).toNat = 0 := rfl
  omega

variable {list : ListenerList}

theorem add_kept (h : Kept bus ledger) {type : Int}
    (hitems : list.items = (bus.listeners type).items)
    (hnext : list.nextId = (bus.listeners type).nextId) (hnonzero : list.nextId ≠ 0)
    (hid : listener.id = list.nextId) (hpaired : Paired listener) :
    Kept
      { bus.setList type
          { list with items := list.items ++ [listener], nextId := list.nextId + 1 } with
        retained := bus.retained ++ retains type [listener] }
      { ledger with
        registered := Function.update ledger.registered type
          (ledger.registered type ++ [listener])
        issued := ledger.issued ++ [(type, list.nextId)] } := by
  have hbelow : ∀ id, (type, id) ∈ ledger.issued → id < list.nextId := by
    intro id hmem
    rw [hnext] at hnonzero ⊢
    exact (h.below _ hmem).resolve_left hnonzero
  refine ⟨fun other => ?_, fun other => ?_, fun other => ?_, fun issue hmem => ?_, ?_,
    fun other => ?_, h.served, fun other one => ?_⟩
  · by_cases hother : other = type
    · subst hother
      simp only [Function.update_self]
      simp only [setList_same, hitems]
      exact (h.current other).append_right _
    · simp only [Function.update_of_ne hother]
      simp only [setList_other _ hother]
      exact h.current other
  · by_cases hother : other = type
    · subst hother
      simp only [Function.update_self]
      refine List.pairwise_append.mpr ⟨h.ascending other, List.pairwise_singleton _ _, ?_⟩
      intro before hbefore after hafter
      rw [List.mem_singleton.mp hafter, hid]
      exact hbelow _ (h.known other before hbefore)
    · simp only [Function.update_of_ne hother]
      exact h.ascending other
  · by_cases hother : other = type
    · subst hother
      simp only [Function.update_self]
      intro one hone
      rcases List.mem_append.mp hone with hone | hone
      · exact List.mem_append_left _ (h.known other one hone)
      · rw [List.mem_singleton.mp hone, hid]
        exact List.mem_append_right _ List.mem_cons_self
    · simp only [Function.update_of_ne hother]
      intro one hone
      exact List.mem_append_left _ (h.known other one hone)
  · by_cases hother : issue.1 = type
    · simp only [hother, setList_same]
      refine lt_next ?_
      rcases List.mem_append.mp hmem with hmem | hmem
      · exact .inr (hbelow _ (by rw [← hother]; exact hmem))
      · rw [List.mem_singleton.mp hmem]
        exact .inl rfl
    · simp only [setList_other _ hother]
      rcases List.mem_append.mp hmem with hmem | hmem
      · exact h.below issue hmem
      · exact absurd (congrArg Prod.fst (List.mem_singleton.mp hmem)) hother
  · refine List.nodup_append.mpr ⟨h.fresh, List.nodup_singleton _, ?_⟩
    intro issue hmem other hother heq
    rw [List.mem_singleton.mp hother] at heq
    subst heq
    exact UInt64.lt_irrefl _ (hbelow _ hmem)
  · by_cases hother : other = type
    · subst hother
      simp only [Function.update_self]
      intro one hone
      rcases List.mem_append.mp hone with hone | hone
      · exact h.paired other one hone
      · rw [List.mem_singleton.mp hone]
        exact hpaired
    · simp only [Function.update_of_ne hother]
      exact h.paired other
  · have hbalance := h.balance other one
    rw [List.count_append, retains_count, hbalance]
    by_cases hother : other = type
    · subst hother
      simp only [setList_same, setList_released, setList_dispatches, hitems, List.count_append,
        true_and]
      by_cases howned : one.retainUserData.isSome = true
      · simp only [if_pos howned]
        omega
      · simp only [if_neg howned]
    · simp only [setList_other _ hother, Ne.symm hother, false_and, if_false, Nat.add_zero]
      rfl

theorem busAdd_kept (h : Kept bus ledger) (type : Int)
    (cb : Option Nat) (userData : Nat) (retain release : Option Nat) (memory : Bool) :
    Kept (busAdd bus type cb userData retain release memory).1
      (ledger.note (.add type cb userData retain release memory)
        (busAdd bus type cb userData retain release memory).2) := by
  cases cb with
  | none => exact h
  | some cb =>
    simp only [busAdd]
    split
    · exact h
    · next hvalid =>
      cases hreserve : reserveListener (bus.listeners type) memory with
      | none => exact h
      | some list =>
        obtain ⟨hitems, hnext⟩ := reserveListener_spec hreserve
        simp only
        split
        · refine h.congr (fun other => ?_) (fun other => ?_) rfl rfl rfl
          · by_cases hother : other = type
            · rw [hother, setList_same, hitems]
            · rw [setList_other _ hother]
          · by_cases hother : other = type
            · rw [hother, setList_same, hnext]
            · rw [setList_other _ hother]
        · next hnonzero =>
          refine add_kept h hitems hnext hnonzero rfl ?_
          rw [not_or, ne_eq, not_not] at hvalid
          rw [Paired]
          cases retain <;> cases release <;> simp_all

theorem release_kept (h : Kept bus ledger) {type : Int} {removed left : List Listener}
    (hitems : (removed ++ list.items).Perm (bus.listeners type).items)
    (hnext : list.nextId = (bus.listeners type).nextId)
    (hleft : left.Sublist (ledger.registered type)) (hcurrent : list.items.Perm left) :
    Kept { bus.setList type list with released := bus.released ++ releases type removed }
      { ledger with registered := Function.update ledger.registered type left } := by
  have hsub : ∀ other, (Function.update ledger.registered type left other).Sublist
      (ledger.registered other) := by
    intro other
    by_cases hother : other = type
    · subst hother
      simpa only [Function.update_self] using hleft
    · simp only [Function.update_of_ne hother]
      exact List.Sublist.refl _
  have hpaired : ∀ listener ∈ removed, Paired listener := by
    intro listener hmem
    refine h.paired type listener ((h.current type).mem_iff.mp ?_)
    exact hitems.mem_iff.mp (List.mem_append_left _ hmem)
  refine ⟨fun other => ?_, fun other => (h.ascending other).sublist (hsub other),
    fun other one hone => h.known other one ((hsub other).subset hone), fun issue hmem => ?_,
    h.fresh, fun other one hone => h.paired other one ((hsub other).subset hone), h.served,
    fun other one => ?_⟩
  · by_cases hother : other = type
    · subst hother
      simp only [setList_same, Function.update_self]
      exact hcurrent
    · simp only [setList_other _ hother, Function.update_of_ne hother]
      exact h.current other
  · have hissue := h.below issue hmem
    by_cases hother : issue.1 = type
    · simp only [hother, setList_same, hnext]
      rwa [hother] at hissue
    · simp only [setList_other _ hother]
      exact hissue
  · have hbalance := h.balance other one
    simp only [List.count_append, releases_count type other hpaired one, setList_dispatches]
    by_cases hother : other = type
    · subst hother
      have hcount := hitems.count_eq one
      rw [List.count_append] at hcount
      simp only [setList_same, true_and]
      by_cases howned : one.retainUserData.isSome = true
      · simp only [if_pos howned] at hbalance ⊢
        exact hbalance.trans (by omega)
      · simp only [if_neg howned] at hbalance ⊢
        exact hbalance
    · simp only [setList_other _ hother, Ne.symm hother, false_and, if_false, Nat.add_zero]
      exact hbalance

theorem findIdx?_id {id : UInt64} (h : items.findIdx? (·.id == id) = some i) :
    ∃ listener, items[i]? = some listener ∧ listener.id = id := by
  obtain ⟨hlt, hid, -⟩ := List.findIdx?_eq_some_iff_getElem.mp h
  exact ⟨items[i], List.getElem?_eq_getElem hlt, by simpa using hid⟩

theorem busRemove_kept (h : Kept bus ledger) (type : Int) (id : UInt64) :
    Kept (busRemove bus type id).1 (ledger.note (.remove type id) (busRemove bus type id).2) := by
  simp only [busRemove]
  split
  · exact h
  · split
    · exact h
    · next i hfind =>
      obtain ⟨listener, hlistener, rfl⟩ := findIdx?_id hfind
      simp only [hlistener, Option.toList_some]
      refine release_kept h ?_ rfl List.filter_sublist ?_
      · exact swapOut_cons_perm hlistener
      · refine (swapOut_perm (h.items_distinct type) hlistener).trans ?_
        exact (h.current type).filter _

/-- The ledger when a list is cleared. -/
def Ledger.clear (ledger : Ledger) (type : Int) : Ledger :=
  { ledger with registered := Function.update ledger.registered type [] }

theorem deinitList_kept (h : Kept bus ledger) (type : Int) :
    Kept (deinitList bus type) (ledger.clear type) := by
  refine release_kept h ?_ rfl (List.nil_sublist _) (List.Perm.refl _)
  rw [List.append_nil]

theorem deinitLists_kept (h : Kept bus ledger) (types : List Int) :
    Kept (types.foldl deinitList bus) (types.foldl Ledger.clear ledger) := by
  induction types generalizing bus ledger with
  | nil => exact h
  | cons type types ih => exact ih (deinitList_kept h type)

theorem clear_all (ledger : Ledger) (types : List Int) :
    types.foldl Ledger.clear ledger = { ledger with
        registered := fun type => if type ∈ types then [] else ledger.registered type } := by
  induction types generalizing ledger with
  | nil => simp
  | cons head types ih =>
    rw [List.foldl_cons, ih, Ledger.clear]
    congr
    funext type
    by_cases htype : type = head
    · simp [htype]
    · simp [htype]

theorem mem_eventTypes (type : Int) :
    type ∈ (List.range eventMax).map Int.ofNat ↔ typeValid type = true := by
  rw [List.mem_map, typeValid, Bool.and_eq_true, decide_eq_true_iff, decide_eq_true_iff]
  constructor
  · intro h
    obtain ⟨value, hvalue, rfl⟩ := h
    have := List.mem_range.mp hvalue
    exact ⟨Int.natCast_nonneg value, Int.ofNat_lt.mpr this⟩
  · intro h
    exact ⟨type.toNat, List.mem_range.mpr (by omega), Int.toNat_of_nonneg h.1⟩

theorem busDeinit_kept (h : Kept bus ledger) :
    Kept (busDeinit bus) (ledger.note .deinit (.status .ok)) := by
  have hall := deinitLists_kept h ((List.range eventMax).map Int.ofNat)
  rw [clear_all] at hall
  simp only [mem_eventTypes] at hall
  exact hall.congr (fun _ => rfl) (fun _ => rfl) rfl rfl rfl

variable {α β : Type} {R : α → β → Prop} {xs : List α} {ys : List β}

theorem forall₂_concat (h : List.Forall₂ R xs ys) {x : α} {y : β} (hlast : R x y) :
    List.Forall₂ R (xs ++ [x]) (ys ++ [y]) := List.rel_append h (.cons hlast .nil)

theorem forall₂_set (h : List.Forall₂ R xs ys) {index : Nat} {x x' : α} (hx : xs[index]? = some x)
    (hstep : ∀ y, R x y → R x' y) : List.Forall₂ R (xs.set index x') ys := by
  induction h generalizing index with
  | nil => simp at hx
  | @cons head other xs ys hhead hrest ih =>
    cases index with
    | zero =>
      cases hx
      exact .cons (hstep other hhead) hrest
    | succ index => exact .cons hhead (ih hx)

theorem busDispatch_kept (h : Kept bus ledger) (shardId : UInt32)
    (event : Event) (memory : Bool) (clones : Nat → Bool) :
    Kept (busDispatch bus shardId event memory clones).1
      (ledger.note (.dispatch shardId event memory clones)
        (busDispatch bus shardId event memory clones).2) := by
  have hpaired : ∀ listener ∈ (bus.listeners event.type).items, Paired listener :=
    fun listener hmem => h.paired _ listener ((h.current _).mem_iff.mp hmem)
  simp only [busDispatch]
  split
  · next hvalid =>
    split
    · next hfull =>
      refine ⟨h.current, h.ascending, h.known, h.below, h.fresh, h.paired,
        forall₂_concat h.served ⟨h.distinct _, by simp, fun _ => ⟨rfl, ?_⟩, by simp, 0,
          Nat.le_refl 0, rfl, by simp, by simp⟩, fun type one => ?_⟩
      · rw [← (h.current event.type).length_eq]
        exact hfull.1
      · have hbalance := h.balance type one
        simpa [held_append, Dispatch.held] using hbalance
    · refine ⟨h.current, h.ascending, h.known, h.below, h.fresh, h.paired,
        forall₂_concat h.served ⟨h.distinct _, fun _ => h.current _, by simp, hpaired, 0,
          Nat.zero_le _, rfl, by simp, rfl, rfl, rfl⟩, fun type one => ?_⟩
      have hbalance := h.balance type one
      simp only [List.count_append, retains_count, held_append, Dispatch.held]
      by_cases htype : event.type = type
      · subst htype
        by_cases howned : one.retainUserData.isSome = true
        · simp only [if_pos howned, true_and, if_true] at hbalance ⊢
          omega
        · simp only [if_neg howned, true_and] at hbalance ⊢
          omega
      · simp only [htype, false_and, if_false, Nat.add_zero]
        exact hbalance
  · exact h

theorem busAdvance_kept (h : Kept bus ledger) (index : Nat) :
    Kept (busAdvance bus index) ledger := by
  rw [busAdvance]
  split
  · exact h
  · next dispatch hdispatch =>
    have hstep : ∀ expected, Served dispatch expected → Served dispatch.advance expected := by
      intro expected hserved
      obtain ⟨count, hcalls⟩ := hserved.calls
      exact ⟨hserved.distinct, by simpa using hserved.snapshot, by simpa using hserved.failed,
        by simpa using hserved.paired, calls_advance hcalls⟩
    have hpaired : ∀ listener ∈ dispatch.releases, Paired listener := by
      intro listener hmem
      obtain ⟨expected, hserved⟩ : ∃ expected, Served dispatch expected := by
        obtain ⟨hlt, rfl⟩ := List.getElem?_eq_some_iff.mp hdispatch
        have hlt' : index < ledger.expected.length := by rw [← h.served.length_eq]; exact hlt
        exact ⟨_, h.served.get hlt hlt'⟩
      refine hserved.paired listener ?_
      rw [Dispatch.releases] at hmem
      split at hmem
      · exact List.mem_of_getElem? (by simpa using hmem)
      · cases hmem
    refine ⟨h.current, h.ascending, h.known, h.below, h.fresh, h.paired,
      forall₂_set h.served hdispatch hstep, fun type one => ?_⟩
    have hbalance := h.balance type one
    have hset := held_set hdispatch dispatch.advance type one
    rw [advance_event, held_advance dispatch, List.count_append] at hset
    simp only [List.count_append, releases_count dispatch.event.type type hpaired one]
    by_cases htype : dispatch.event.type = type
    · simp only [htype, true_and, if_true] at hset ⊢
      by_cases howned : one.retainUserData.isSome = true
      · simp only [if_pos howned] at hbalance ⊢
        omega
      · simp only [if_neg howned] at hbalance ⊢
        exact hbalance
    · simp only [htype, false_and, if_false, Nat.add_zero] at hset ⊢
      rw [hset]
      exact hbalance

theorem busCancel_kept (h : Kept bus ledger) (index : Nat) :
    Kept (busCancel bus index) ledger := by
  rw [busCancel]
  split
  · exact h
  · next dispatch hdispatch =>
    have hstep : ∀ expected, Served dispatch expected → Served dispatch.cancel expected := by
      intro expected hserved
      obtain ⟨count, hcalls⟩ := hserved.calls
      exact ⟨hserved.distinct, by simpa using hserved.snapshot, by simpa using hserved.failed,
        by simpa using hserved.paired, count, calls_cancel hcalls⟩
    refine ⟨h.current, h.ascending, h.known, h.below, h.fresh, h.paired,
      forall₂_set h.served hdispatch hstep, fun type one => ?_⟩
    have hset := held_set hdispatch dispatch.cancel type one
    rw [cancel_type, held_cancel, Nat.add_right_cancel_iff] at hset
    simp only [hset]
    exact h.balance type one

variable {world : World}

/-- **Every step keeps it.** -/
theorem worldStep_kept (h : Kept world.bus world.ledger) (action : Step) :
    Kept (worldStep world action).bus (worldStep world action).ledger := by
  cases action with
  | add type cb userData retain release memory =>
    exact busAdd_kept h type cb userData retain release memory
  | remove type id => exact busRemove_kept h type id
  | dispatch shardId event memory clones => exact busDispatch_kept h shardId event memory clones
  | advance index => exact busAdvance_kept h index
  | cancel index => exact busCancel_kept h index
  | wait address waiter => exact h.congr (fun _ => rfl) (fun _ => rfl) rfl rfl rfl
  | unwait address => exact h.congr (fun _ => rfl) (fun _ => rfl) rfl rfl rfl
  | deinit => exact busDeinit_kept h

theorem run_kept (steps : List Step) : Kept (run steps).bus (run steps).ledger := by
  induction steps using List.reverseRecOn with
  | nil =>
    exact ⟨fun _ => .refl _, fun _ => .nil, by simp [run], by simp [run], List.nodup_nil,
      by simp [run], .nil, by simp [run, Bus.init, held]⟩
  | append_singleton steps action ih =>
    rw [run_concat]
    exact worldStep_kept ih action

theorem held_finished (h : ∀ dispatch ∈ dispatches, dispatch.phase = .finished) (type : Int)
    (listener : Listener) : held dispatches type listener = 0 := by
  induction dispatches with
  | nil => rfl
  | cons head tail ih =>
    have hhead := h head List.mem_cons_self
    have htail := ih fun dispatch hmem => h dispatch (List.mem_cons_of_mem _ hmem)
    have hnone : head.held = [] := by rw [Dispatch.held, hhead]
    rw [held, List.map_cons, List.sum_cons, hnone]
    simpa [held] using htail

theorem Kept.settled (h : Kept bus ledger) (hempty : ∀ type, (bus.listeners type).items = [])
    (hfinished : ∀ dispatch ∈ bus.dispatches, dispatch.phase = .finished) :
    bus.retained.Perm bus.released := by
  refine List.perm_iff_count.mpr fun entry => ?_
  obtain ⟨type, listener⟩ := entry
  rw [h.balance type listener, hempty, held_finished hfinished]
  simp

/-! ## The order -/

/-- The lists, and the snapshots of the dispatches, are in the order of registration. -/
structure InOrder (world : World) : Prop where
  lists : ∀ type, (world.bus.listeners type).items = world.ledger.registered type
  snapshots : List.Forall₂ (fun dispatch expected => dispatch.snapshot = expected)
    world.bus.dispatches world.ledger.expected

/-- A step that keeps the order: a removal takes one of the last two listeners, and a dispatch has
memory for a snapshot that does not fit inline. -/
def Orderly (bus : Bus) : Step → Prop
  | .remove type id => typeValid type = true → id ≠ 0 →
      ∀ i, (bus.listeners type).items.findIdx? (·.id == id) = some i →
        (bus.listeners type).items.length ≤ i + 2
  | .dispatch _ event memory _ => typeValid event.type = true →
      memory = true ∨ (bus.listeners event.type).items.length ≤ inlineSnapshotCap
  | _ => True

theorem InOrder.congr (h : InOrder world)
    (hitems : ∀ type, (bus.listeners type).items = (world.bus.listeners type).items)
    (hdispatches : bus.dispatches = world.bus.dispatches) : InOrder ⟨bus, world.ledger⟩ where
  lists type := (hitems type).trans (h.lists type)
  snapshots := by
    rw [hdispatches]
    exact h.snapshots

theorem add_inOrder (h : InOrder world) (type : Int) (cb : Option Nat)
    (userData : Nat) (retain release : Option Nat) (memory : Bool) :
    InOrder (worldStep world (.add type cb userData retain release memory)) := by
  cases cb with
  | none => exact h
  | some cb =>
    simp only [worldStep, step, busAdd]
    split
    · exact h
    · cases hreserve : reserveListener (world.bus.listeners type) memory with
      | none => exact h
      | some list =>
        obtain ⟨hitems, -⟩ := reserveListener_spec hreserve
        simp only
        split
        · refine h.congr (fun other => ?_) rfl
          by_cases hother : other = type
          · rw [hother, setList_same, hitems]
          · rw [setList_other _ hother]
        · refine ⟨fun other => ?_, h.snapshots⟩
          simp only [Ledger.note, Option.getD_some]
          by_cases hother : other = type
          · subst hother
            simp only [setList_same, Function.update_self, hitems, h.lists]
          · simp only [setList_other _ hother, Function.update_of_ne hother, h.lists]

theorem remove_inOrder_iff (hkept : Kept world.bus world.ledger)
    (h : InOrder world) (type : Int) (id : UInt64) :
    InOrder (worldStep world (.remove type id)) ↔ Orderly world.bus (.remove type id) := by
  simp only [worldStep, step, busRemove, Orderly]
  split
  · next hinvalid =>
    refine iff_of_true h fun hvalid hid => ?_
    grind
  · next hvalid =>
    rw [not_or, Bool.not_eq_false] at hvalid
    split
    · next hnone =>
      refine iff_of_true h fun _ _ i hsome => ?_
      rw [hnone] at hsome
      cases hsome
    · next i hfind =>
      obtain ⟨listener, hlistener, rfl⟩ := findIdx?_id hfind
      have hswap := swapOut_eq_iff (hkept.items_distinct type) hlistener
      constructor
      · intro hafter _ _ j hj
        cases hfind.symm.trans hj
        have hlist := hafter.lists type
        simp only [Ledger.note, setList_same, Function.update_self, ← h.lists type] at hlist
        exact hswap.mp hlist
      · intro hle
        have hkeeps := hswap.mpr (hle hvalid.1 hvalid.2 i hfind)
        refine ⟨fun other => ?_, h.snapshots⟩
        simp only [Ledger.note]
        by_cases hother : other = type
        · subst hother
          simp only [setList_same, Function.update_self, ← h.lists other]
          exact hkeeps
        · simp only [setList_other _ hother, Function.update_of_ne hother, h.lists]

theorem forall₂_last {x : α} {y : β} (h : List.Forall₂ R (xs ++ [x]) (ys ++ [y])) : R x y := by
  have hreverse := List.forall₂_reverse_iff.mpr h
  rw [List.reverse_append, List.reverse_append] at hreverse
  cases hreverse with
  | cons hhead _ => exact hhead

theorem dispatch_inOrder_iff (h : InOrder world) (shardId : UInt32)
    (event : Event) (memory : Bool) (clones : Nat → Bool) :
    InOrder (worldStep world (.dispatch shardId event memory clones)) ↔
      Orderly world.bus (.dispatch shardId event memory clones) := by
  simp only [worldStep, step, busDispatch, Orderly]
  split
  · next hvalid =>
    split
    · next hfull =>
      obtain ⟨hlength, hmemory⟩ := hfull
      refine iff_of_false (fun hafter => ?_) (fun hfits => ?_)
      · have hlast := forall₂_last hafter.snapshots
        rw [h.lists, ← hlast] at hlength
        exact absurd hlength (Nat.not_lt_zero _)
      · rcases hfits hvalid with hyes | hle
        · rw [hmemory] at hyes
          cases hyes
        · omega
    · next hfits =>
      refine iff_of_true ⟨h.lists, forall₂_concat h.snapshots (h.lists _)⟩ fun _ => ?_
      grind
  · next hinvalid => exact iff_of_true h fun hvalid => absurd hvalid hinvalid

theorem deinitLists_spec (bus : Bus) (types : List Int) :
    (types.foldl deinitList bus).dispatches = bus.dispatches ∧
      ∀ type, ((types.foldl deinitList bus).listeners type).items =
        if type ∈ types then [] else (bus.listeners type).items := by
  induction types generalizing bus with
  | nil => simp
  | cons head types ih =>
    obtain ⟨hdispatches, hitems⟩ := ih (deinitList bus head)
    refine ⟨hdispatches, fun type => ?_⟩
    rw [List.foldl_cons, hitems, deinitList]
    by_cases htype : type = head
    · subst htype
      simp [setList_same]
    · simp [setList_other _ htype, htype]

theorem worldStep_inOrder_iff (hkept : Kept world.bus world.ledger)
    (h : InOrder world) (action : Step) :
    InOrder (worldStep world action) ↔ Orderly world.bus action := by
  cases action with
  | add type cb userData retain release memory =>
    exact iff_of_true (add_inOrder h type cb userData retain release memory) trivial
  | remove type id => exact remove_inOrder_iff hkept h type id
  | dispatch shardId event memory clones => exact dispatch_inOrder_iff h shardId event memory clones
  | advance index =>
    refine iff_of_true ?_ trivial
    simp only [worldStep, step, busAdvance]
    split
    · exact h
    · next dispatch hdispatch =>
      refine ⟨h.lists, forall₂_set h.snapshots hdispatch fun expected heq => ?_⟩
      rw [advance_snapshot]
      exact heq
  | cancel index =>
    refine iff_of_true ?_ trivial
    simp only [worldStep, step, busCancel]
    split
    · exact h
    · next dispatch hdispatch =>
      refine ⟨h.lists, forall₂_set h.snapshots hdispatch fun expected heq => ?_⟩
      rw [cancel_snapshot]
      exact heq
  | wait address waiter => exact iff_of_true (h.congr (fun _ => rfl) rfl) trivial
  | unwait address => exact iff_of_true (h.congr (fun _ => rfl) rfl) trivial
  | deinit =>
    obtain ⟨hdispatches, hitems⟩ :=
      deinitLists_spec world.bus ((List.range eventMax).map Int.ofNat)
    refine iff_of_true ⟨fun type => ?_, ?_⟩ trivial
    · refine (hitems type).trans ?_
      simp only [mem_eventTypes, worldStep, Ledger.note, h.lists]
    · simp only [worldStep, step, busDeinit, hdispatches]
      exact h.snapshots

theorem run_inOrder_iff (steps : List Step) :
    (∀ n, InOrder (run (steps.take n))) ↔
      ∀ n action, steps[n]? = some action → Orderly (run (steps.take n)).bus action := by
  have htake : ∀ n action, steps[n]? = some action →
      run (steps.take (n + 1)) = worldStep (run (steps.take n)) action := by
    intro n action haction
    rw [List.take_add_one, haction]
    exact run_concat _ action
  constructor
  · intro h n action haction
    have hnext := h (n + 1)
    rw [htake n action haction] at hnext
    exact (worldStep_inOrder_iff (run_kept _) (h n) action).mp hnext
  · intro h n
    induction n with
    | zero => exact ⟨fun _ => rfl, .nil⟩
    | succ n ih =>
      cases haction : steps[n]? with
      | none =>
        rw [List.take_add_one, haction, Option.toList_none, List.append_nil]
        exact ih
      | some action =>
        rw [htake n action haction]
        exact (worldStep_inOrder_iff (run_kept _) ih action).mpr (h n action haction)

/-- **Listeners are kept, and in order exactly in an orderly run.**  In every run the lists hold the
listeners that are registered, a dispatch calls those of its snapshot once each up to the one that
cancels, identifiers are fresh, and in the end what was retained is released; and the lists and
snapshots are in the order of registration throughout exactly when every step keeps it. -/
theorem listeners_kept_in_order (steps : List Step) :
    Kept (run steps).bus (run steps).ledger ∧
      ((∀ type, ((run steps).bus.listeners type).items = []) →
        (∀ dispatch ∈ (run steps).bus.dispatches, dispatch.phase = .finished) →
        (run steps).bus.retained.Perm (run steps).bus.released) ∧
      ((∀ n, InOrder (run (steps.take n))) ↔
        ∀ n action, steps[n]? = some action → Orderly (run (steps.take n)).bus action) :=
  ⟨run_kept steps, (run_kept steps).settled, run_inOrder_iff steps⟩

/-- Three listeners, of which the first is removed, and an event that none of them cancels. -/
def removedFirst : List Step :=
  [.add 2 (some 1) 0 none none true, .add 2 (some 2) 0 none none true,
    .add 2 (some 3) 0 none none true, .remove 2 1,
    .dispatch 0 (eventOf 2) true fun _ => true, .advance 0, .advance 0, .advance 0]

/-- The third listener is called before the second. -/
theorem removedFirst_out_of_order :
    ((run removedFirst).ledger.registered 2).map Listener.id = [2, 3] ∧
      (run removedFirst).bus.dispatches.map (fun dispatch => dispatch.invoked.map Listener.id) =
        [[3, 2]] := by
  decide +kernel

end Dcc.Events
