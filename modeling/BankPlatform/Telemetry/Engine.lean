import BankPlatform.Library.ChangeDetector
import BankPlatform.Telemetry.Writers

/-!
# What the engine writer does

Each input of each device is watched by a change detector: what the handler knows of the input is
what it remembers, or what the newest stored transition says, and what the detector tells is stored.

## Main definitions

* `EngineInput` — ignition and movement; `EngineInput.readings` — what a device sends about them.
* `known`, `stored` — what the handler knows of an input, and the transitions in the table.
* `Looked`, `Watches` — the detectors have read some events of a batch.

## Main results

* `does_engineRows`, `fails_engineRows` — what the handler does with one event.
* `Looked.watches` — what the insert adds.
-/

namespace BankPlatform.Telemetry

open Library Teltonika

/-! ## Inputs and their readings -/

inductive EngineInput where
  | ignition
  | movement
  deriving DecidableEq, Repr

/-- What a record says about an input. -/
structure InputReading where
  recordedAt : JsDate
  receivedAt : JsDate
  value : Bool
  /-- The record was generated because the input changed. -/
  reported : Bool
  deriving DecidableEq, Repr

namespace InputReading

/-- Of the rows with one key the table keeps the first. -/
def key (r : InputReading) : JsDate × Bool := (r.recordedAt, r.value)

end InputReading

def engineDetector : ChangeDetector InputReading Bool := ⟨InputReading.value, InputReading.reported⟩

/-- The readings of a batch that are told. -/
def told (isLive : Bool) (known : Option Bool) (rs : List InputReading) : List InputReading :=
  if isLive then engineDetector.shown known rs else rs.filter InputReading.reported

/-- What is known behind a batch. -/
def knownAfter (isLive : Bool) (known : Option Bool) (rs : List InputReading) : Option Bool :=
  if isLive then engineDetector.after known rs else known

@[simp] theorem told_nil (isLive : Bool) (known : Option Bool) : told isLive known [] = [] := by
  cases isLive <;> rfl

@[simp] theorem knownAfter_nil (isLive : Bool) (known : Option Bool) :
    knownAfter isLive known [] = known := by
  cases isLive <;> rfl

theorem told_append (isLive : Bool) (known : Option Bool) (rs rs' : List InputReading) :
    told isLive known (rs ++ rs') =
      told isLive known rs ++ told isLive (knownAfter isLive known rs) rs' := by
  cases isLive <;> simp [told, knownAfter]

theorem knownAfter_append (isLive : Bool) (known : Option Bool) (rs rs' : List InputReading) :
    knownAfter isLive known (rs ++ rs') = knownAfter isLive (knownAfter isLive known rs) rs' := by
  cases isLive <;> simp [knownAfter]

namespace EngineInput

def value : EngineInput → TelemetryEvent → Option Bool
  | ignition, event => event.ignition
  | movement, event => event.movement

def avlId : EngineInput → ℕ
  | ignition => AVL_ID.ignition
  | movement => AVL_ID.movement

def types : EngineInput → List EngineEventType
  | ignition => IGNITION_EVENTS
  | movement => MOVEMENT_EVENTS

def eventType : EngineInput → Bool → EngineEventType
  | ignition, true => .ignitionOn
  | ignition, false => .ignitionOff
  | movement, true => .movementStart
  | movement, false => .movementStop

def known : EngineInput → VehicleState → Option Bool
  | ignition, state => state.ignition
  | movement, state => state.movement

/-- What an event says about the input of a device. -/
def reading? (i : EngineInput) (imei : String) (event : TelemetryEvent) : Option InputReading :=
  if event.imei = imei then
    (i.value event).map fun value =>
      { recordedAt := JsDate.parse event.recordedAt
        receivedAt := JsDate.parse event.receivedAt
        value
        reported := event.eventIoId = i.avlId }
  else none

def readings (i : EngineInput) (imei : String) (events : List TelemetryEvent) :
    List InputReading := events.filterMap (i.reading? imei)

theorem readings_append (i : EngineInput) (imei : String) (events events' : List TelemetryEvent) :
    i.readings imei (events ++ events') = i.readings imei events ++ i.readings imei events' :=
  List.filterMap_append

theorem eventType_mem_types (i : EngineInput) (b : Bool) : i.eventType b ∈ i.types := by
  cases i <;> cases b <;> decide

theorem mem_types_iff {i : EngineInput} {t : EngineEventType} :
    t ∈ i.types ↔ ∃ b, t = i.eventType b := by
  cases i <;> cases t <;> simp [types, eventType, IGNITION_EVENTS, MOVEMENT_EVENTS]

theorem eventType_inj {i i' : EngineInput} {b b' : Bool} (h : i.eventType b = i'.eventType b') :
    i = i' ∧ b = b' := by
  cases i <;> cases i' <;> cases b <;> cases b' <;> simp [eventType] at h ⊢

theorem exists_eventType (t : EngineEventType) : ∃ i b, t = eventType i b := by
  cases t
  · exact ⟨ignition, true, rfl⟩
  · exact ⟨ignition, false, rfl⟩
  · exact ⟨movement, true, rfl⟩
  · exact ⟨movement, false, rfl⟩

end EngineInput

/-- The events that the engine writer looks at. -/
def concernsEngine (event : TelemetryEvent) : Bool := event.ignition.isSome || event.movement.isSome

theorem EngineInput.readings_filter (i : EngineInput) (imei : String)
    (events : List TelemetryEvent) :
    i.readings imei (events.filter concernsEngine) = i.readings imei events := by
  rw [readings, readings, List.filterMap_filter]
  refine List.filterMap_congr fun event _ => ?_
  cases i <;> cases hi : event.ignition <;> cases hm : event.movement <;>
    simp [concernsEngine, reading?, value, hi, hm]

/-! ## What a record represents -/

/-- What `inputTransition` makes of an input of a record. -/
def EngineInput.transition (i : EngineInput) (event : TelemetryEvent) (known : Option Bool)
    (isLive : Bool) : List EngineEventType × Option Bool :=
  inputTransition (i.value event) known (event.eventIoId = i.avlId) isLive (i.eventType true)
    (i.eventType false)

/-- A record acts on an input as a reading of its detector. -/
theorem transition_eq (i : EngineInput) (event : TelemetryEvent) (known : Option Bool)
    (isLive : Bool) :
    i.transition event known isLive =
      ((told isLive known (i.readings event.imei [event])).map fun r => i.eventType r.value,
        knownAfter isLive known (i.readings event.imei [event])) := by
  unfold EngineInput.transition EngineInput.readings
  cases h : i.value event with
  | none => simp [inputTransition, EngineInput.reading?, h]
  | some value =>
    have hreading : [event].filterMap (i.reading? event.imei) =
        [⟨JsDate.parse event.recordedAt, JsDate.parse event.receivedAt, value,
          event.eventIoId = i.avlId⟩] := by
      simp [EngineInput.reading?, h]
    rw [hreading]
    cases isLive
    · by_cases hreported : event.eventIoId = i.avlId <;> cases value <;>
        simp [inputTransition, told, knownAfter, hreported]
    · by_cases hreported : event.eventIoId = i.avlId <;> cases value <;>
        rcases known with _ | _ | _ <;>
        simp [inputTransition, told, knownAfter, hreported, engineDetector, ChangeDetector.shown,
          ChangeDetector.shows, ChangeDetector.after]

theorem known_transitionsFor (i : EngineInput) (event : TelemetryEvent) (state : VehicleState)
    (isLive : Bool) :
    i.known (transitionsFor event state isLive).2 =
      knownAfter isLive (i.known state) (i.readings event.imei [event]) := by
  have h := congrArg Prod.snd (transition_eq i event (i.known state) isLive)
  cases i <;> exact h

/-- The transitions of a record that are about one input. -/
theorem filter_transitionsFor (i : EngineInput) (event : TelemetryEvent) (state : VehicleState)
    (isLive : Bool) :
    (transitionsFor event state isLive).1.filter (fun t => t ∈ i.types) =
      (told isLive (i.known state) (i.readings event.imei [event])).map
        fun r => i.eventType r.value := by
  have hsplit : (transitionsFor event state isLive).1 =
      (EngineInput.ignition.transition event state.ignition isLive).1 ++
        (EngineInput.movement.transition event state.movement isLive).1 := rfl
  have hown : ∀ (i' : EngineInput) (known : Option Bool),
      (i'.transition event known isLive).1.filter (fun t => t ∈ i.types) =
        if i' = i then (i'.transition event known isLive).1 else [] := by
    intro i' known
    rw [transition_eq]
    split
    · next heq =>
      subst heq
      simp [List.filter_map, Function.comp_def, EngineInput.eventType_mem_types]
    · next hne =>
      rw [List.filter_eq_nil_iff]
      intro t ht hmem
      obtain ⟨r, _, rfl⟩ := List.mem_map.mp ht
      obtain ⟨b, hb⟩ := EngineInput.mem_types_iff.mp (of_decide_eq_true hmem)
      exact hne (EngineInput.eventType_inj hb).1
  rw [hsplit, List.filter_append, hown, hown]
  cases i
  · simp [transition_eq, EngineInput.known]
  · simp [transition_eq, EngineInput.known]

variable {Id : Type} [DecidableEq Id]

/-! ## What the handler knows, and what is stored -/

/-- What `loadState` answers: the cached state, or the one of the newest stored transitions. -/
def stateOf (newest : NewestFirst Id) (w : World Id) (v : Id) : VehicleState :=
  match w.engineStates.find? v with
  | some cached => cached.2
  | none =>
    { ignition := (lastTransition newest v IGNITION_EVENTS w).map (· = .ignitionOn)
      movement := (lastTransition newest v MOVEMENT_EVENTS w).map (· = .movementStart) }

/-- What a handler knows of the input of a device. -/
def known (newest : NewestFirst Id) (w : World Id) (imei : String) (i : EngineInput) : Option Bool :=
  (vehicleOf w imei).bind fun v => i.known (stateOf newest w v)

/-- When the transition to a value at a time was received, if it is stored. -/
def stored (w : World Id) (imei : String) (i : EngineInput) (x : JsDate × Bool) : Option JsDate :=
  (vehicleOf w imei).bind fun v =>
    (w.db.vehicleEngineEvents.find? (v, x.1, i.eventType x.2)).map VehicleEngineEvent.receivedAt

/-- Between batches: the caches and the table are about vehicles. -/
structure EngineReady (w : World Id) : Prop where
  registry : RegistryAgrees w
  rows : ∀ r ∈ w.db.vehicleEngineEvents.rows, ∃ imei, vehicleOf w imei = some r.vehicleId
  states : ∀ v, (w.engineStates.find? v).isSome = true → ∃ imei, vehicleOf w imei = some v

/-- A process that has just started, over a database whose references are valid. -/
theorem EngineReady.start {db : TelemetryDb Id} (h : ∀ r ∈ db.vehicleEngineEvents.rows,
    ∃ imei, vehicleOf (World.start db) imei = some r.vehicleId) : EngineReady (World.start db) where
  registry := .start db
  rows := h
  states v hv := by cases hv

/-- From `w` to `w'` at most vehicles were registered, as far as the engine writer is concerned. -/
structure SameEngine (w w' : World Id) : Prop where
  vehicles : ∀ imei v, w.db.vehicles.find? imei = some v → w'.db.vehicles.find? imei = some v
  table : w'.db.vehicleEngineEvents = w.db.vehicleEngineEvents

omit [DecidableEq Id] in
theorem SameEngine.vehicleOf_eq {w w' : World Id} (h : SameEngine w w') {imei : String} {v : Id}
    (hv : vehicleOf w imei = some v) : vehicleOf w' imei = some v := by
  obtain ⟨row, hrow, rfl⟩ := Option.map_eq_some_iff.mp hv
  rw [vehicleOf, h.vehicles imei row hrow, Option.map_some]

omit [DecidableEq Id] in
/-- A vehicle that something refers to was there before. -/
theorem SameEngine.vehicleOf_of_reference {w w' : World Id} (h : SameEngine w w') {imei : String}
    {v : Id} (hv : vehicleOf w' imei = some v) (href : ∃ imei', vehicleOf w imei' = some v) :
    vehicleOf w imei = some v := by
  obtain ⟨imei', himei'⟩ := href
  obtain rfl := vehicleOf_inj hv (h.vehicleOf_eq himei')
  exact himei'

theorem SameEngine.stored_eq {w w' : World Id} (h : SameEngine w w') (hw : EngineReady w)
    (imei : String) (i : EngineInput) : stored w' imei i = stored w imei i := by
  funext x
  unfold stored
  rw [h.table]
  cases hv : vehicleOf w imei with
  | some v => rw [h.vehicleOf_eq hv]
  | none =>
    cases hv' : vehicleOf w' imei with
    | none => rfl
    | some v =>
      cases hrow : w.db.vehicleEngineEvents.find? (v, x.1, i.eventType x.2) with
      | none => simp [hrow]
      | some r =>
        have hkey : r.vehicleId = v := congrArg Prod.fst (Table.key_of_find? hrow)
        have hsome := h.vehicleOf_of_reference hv' (hkey ▸ hw.rows r (Table.mem_of_find? hrow))
        rw [hv] at hsome
        cases hsome

/-- Of a vehicle that nothing refers to nothing is known. -/
theorem known_of_unreferenced (newest : NewestFirst Id) {w : World Id} {v : Id}
    (hrows : ∀ r ∈ w.db.vehicleEngineEvents.rows, r.vehicleId ≠ v)
    (hstate : w.engineStates.find? v = none) (i : EngineInput) :
    i.known (stateOf newest w v) = none := by
  have hlast : ∀ types, lastTransition newest v types w = none := by
    intro types
    rw [lastTransition, Option.map_eq_none_iff, newest.pick_eq_none, List.filter_eq_nil_iff]
    intro r hr
    simp [hrows r hr]
  cases i <;> simp [stateOf, hstate, hlast, EngineInput.known]

theorem SameEngine.known_eq {w w' : World Id} (h : SameEngine w w') (hw : EngineReady w)
    (hstates : w'.engineStates = w.engineStates) (newest : NewestFirst Id) (imei : String)
    (i : EngineInput) : known newest w' imei i = known newest w imei i := by
  have hstate : ∀ v, stateOf newest w' v = stateOf newest w v := by
    intro v
    simp only [stateOf, lastTransition, hstates, h.table]
  unfold known
  cases hv : vehicleOf w imei with
  | some v => rw [h.vehicleOf_eq hv, Option.bind_some, Option.bind_some, hstate]
  | none =>
    cases hv' : vehicleOf w' imei with
    | none => rfl
    | some v =>
      have hunreferenced : ¬ ∃ imei', vehicleOf w imei' = some v := by
        intro href
        have hsome := h.vehicleOf_of_reference hv' href
        rw [hv] at hsome
        cases hsome
      rw [Option.bind_some, Option.bind_none, hstate]
      refine known_of_unreferenced newest (fun r hr heq => ?_) ?_ i
      · exact hunreferenced (heq ▸ hw.rows r hr)
      · rw [← Option.not_isSome_iff_eq_none]
        exact fun hsome => hunreferenced (hw.states v hsome)

/-! ## One event -/

/-- What is demanded of the time stamps of an event. -/
def dateColumns (event : TelemetryEvent) : Checks :=
  [timestampColumn "recorded_at" (JsDate.parse event.recordedAt),
    timestampColumn "received_at" (JsDate.parse event.receivedAt)]

/-- The time stamps of an event are dates that the columns take. -/
def Dated (event : TelemetryEvent) : Prop := InOrder (dateColumns event)

instance (event : TelemetryEvent) : Decidable (Dated event) :=
  inferInstanceAs (Decidable (∀ c ∈ dateColumns event, c.1 = true))

/-- The row of a reading that is told. -/
def transitionRow (v : Id) (i : EngineInput) (r : InputReading) : VehicleEngineEvent Id where
  vehicleId := v
  recordedAt := r.recordedAt
  receivedAt := r.receivedAt
  eventType := i.eventType r.value

/-- The row is about an input of a vehicle. -/
def isAbout (v : Id) (i : EngineInput) (r : VehicleEngineEvent Id) : Bool :=
  r.vehicleId = v && decide (r.eventType ∈ i.types)

/-- The state of a vehicle is remembered. -/
def World.remember (w : World Id) (v : Id) (state : VehicleState) : World Id :=
  { w with engineStates := JsMap.set w.engineStates v state }

/-- From `u` to `u'` the state of a vehicle was replaced in the cache, and nothing else changed. -/
structure Remembers (newest : NewestFirst Id) (v : Id) (state : VehicleState) (u u' : World Id) :
    Prop where
  db : u'.db = u.db
  registry : u'.registry = u.registry
  cached : ∀ v', (u'.engineStates.find? v').isSome = true ↔
    v = v' ∨ (u.engineStates.find? v').isSome = true
  states : ∀ v', stateOf newest u' v' = if v = v' then state else stateOf newest u v'

/-- Remembering a state over a cache that may have been filled with the stored one before. -/
theorem remembers_of_find? (newest : NewestFirst Id) {v : Id} {state : VehicleState}
    {u u' : World Id} (hdb : u'.db = u.db) (hregistry : u'.registry = u.registry)
    (hfind : ∀ v', u'.engineStates.find? v' =
      if v = v' then some (v, state) else u.engineStates.find? v') :
    Remembers newest v state u u' where
  db := hdb
  registry := hregistry
  cached v' := by
    rw [hfind]
    by_cases heq : v = v'
    · simp [heq]
    · simp [heq]
  states v' := by
    simp only [stateOf, hfind, lastTransition, hdb]
    by_cases heq : v = v'
    · simp [heq]
    · simp [heq]

theorem does_loadState (newest : NewestFirst Id) (v : Id) (u : World Id) :
    ∃ u₁, Session.Does (loadState newest v) u (stateOf newest u v) u₁ ∧
      ∀ state, Remembers newest v state u (u₁.remember v state) := by
  cases hcached : u.engineStates.find? v with
  | some cached =>
    refine ⟨u, (Session.does_get u).bind ?_, fun state =>
      remembers_of_find? newest rfl rfl fun v' => JsMap.find?_set _ _ _ _⟩
    rw [hcached, stateOf, hcached]
    rfl
  | none =>
    refine ⟨u.remember v (stateOf newest u v), (Session.does_get u).bind ?_, fun state =>
      remembers_of_find? newest rfl rfl fun v' => ?_⟩
    · rw [hcached, stateOf, hcached]
      exact (Session.does_query _ _ _).bind
        ((Session.does_query _ _ _).bind ((Session.does_modify _ _).bind rfl))
    · simp only [World.remember, JsMap.find?_set]
      split <;> rfl

omit [DecidableEq Id] in
theorem vehicleOf_of_db {u u' : World Id} (h : u'.db = u.db) (imei : String) :
    vehicleOf u' imei = vehicleOf u imei := by
  rw [vehicleOf, h, vehicleOf]

namespace Remembers

variable {newest : NewestFirst Id} {v : Id} {state : VehicleState} {u u' : World Id} {imei : String}

theorem known_eq (h : Remembers newest v state u u') (hv : vehicleOf u imei = some v)
    (i : EngineInput) : known newest u' imei i = i.known state := by
  rw [known, vehicleOf_of_db h.db, hv, Option.bind_some, h.states, if_pos rfl]

theorem known_of_ne (h : Remembers newest v state u u') (hv : vehicleOf u imei ≠ some v)
    (i : EngineInput) : known newest u' imei i = known newest u imei i := by
  unfold known
  rw [vehicleOf_of_db h.db]
  cases hv' : vehicleOf u imei with
  | none => rfl
  | some v' =>
    have hne : v ≠ v' := fun heq => hv (heq ▸ hv')
    rw [Option.bind_some, Option.bind_some, h.states, if_neg hne]

end Remembers

/-- The events `done` of a batch were looked at since the vehicles were resolved, in `t`. -/
structure Looked (newest : NewestFirst Id) (isLive : Bool) (t : World Id)
    (done : List TelemetryEvent) (rows : List (VehicleEngineEvent Id)) (u : World Id) : Prop where
  db : u.db = t.db
  registry : u.registry = t.registry
  cached : ∀ v, (u.engineStates.find? v).isSome = true ↔
    (t.engineStates.find? v).isSome = true ∨ ∃ event ∈ done, vehicleOf t event.imei = some v
  known : ∀ imei i, known newest u imei i =
    knownAfter isLive (known newest t imei i) (i.readings imei done)
  told : ∀ imei v, vehicleOf t imei = some v → ∀ i, rows.filter (isAbout v i) =
    (told isLive (Telemetry.known newest t imei i) (i.readings imei done)).map (transitionRow v i)
  rows : ∀ r ∈ rows, ∃ event ∈ done, vehicleOf t event.imei = some r.vehicleId ∧
    r.columns = dateColumns event

theorem Looked.refl (newest : NewestFirst Id) (isLive : Bool) (t : World Id) :
    Looked newest isLive t [] [] t where
  db := rfl
  registry := rfl
  cached v := by simp
  known imei i := by simp [EngineInput.readings]
  told imei v hv i := by simp [EngineInput.readings]
  rows r hr := by cases hr

/-- An event says nothing about other devices. -/
theorem readings_other {i : EngineInput} {imei : String} {event : TelemetryEvent}
    (h : event.imei ≠ imei) : i.readings imei [event] = [] := by
  simp [EngineInput.readings, EngineInput.reading?, h]

/-- The rows that an event adds. -/
def newRows (v : Id) (event : TelemetryEvent) (transitions : List EngineEventType) :
    List (VehicleEngineEvent Id) :=
  transitions.map fun transition =>
    { vehicleId := v
      recordedAt := JsDate.parse event.recordedAt
      receivedAt := JsDate.parse event.receivedAt
      eventType := transition }

theorem filter_newRows (v v' : Id) (i : EngineInput) (event : TelemetryEvent)
    (state : VehicleState) (isLive : Bool) :
    (newRows v event (transitionsFor event state isLive).1).filter (isAbout v' i) =
      if v = v' then
        (told isLive (i.known state) (i.readings event.imei [event])).map (transitionRow v' i)
      else [] := by
  split
  · next heq =>
    subst heq
    have hfilter : (newRows v event (transitionsFor event state isLive).1).filter (isAbout v i) =
        newRows v event ((transitionsFor event state isLive).1.filter fun t => t ∈ i.types) := by
      simp [newRows, List.filter_map, Function.comp_def, isAbout]
    rw [hfilter, filter_transitionsFor, newRows, List.map_map]
    refine List.map_congr_left fun r hr => ?_
    have hmem : r ∈ i.readings event.imei [event] := by
      unfold told at hr
      split at hr
      · exact (ChangeDetector.shown_sublist _ _ _).subset hr
      · exact List.mem_of_mem_filter hr
    obtain ⟨_, hevent, hread⟩ := List.mem_filterMap.mp hmem
    obtain rfl := List.mem_singleton.mp hevent
    rw [EngineInput.reading?, if_pos rfl] at hread
    obtain ⟨value, _, rfl⟩ := Option.map_eq_some_iff.mp hread
    rfl
  · next hne =>
    rw [List.filter_eq_nil_iff]
    intro r hr
    obtain ⟨transition, _, rfl⟩ := List.mem_map.mp hr
    simp [isAbout, hne]

namespace Looked

variable {newest : NewestFirst Id} {isLive : Bool} {t : World Id} {done : List TelemetryEvent}
  {rows : List (VehicleEngineEvent Id)} {u u' : World Id}

theorem vehicleOf_eq (h : Looked newest isLive t done rows u) (imei : String) :
    vehicleOf u imei = vehicleOf t imei :=
  vehicleOf_of_db h.db imei

variable {event : TelemetryEvent} {v : Id}

theorem cached_concat (h : Looked newest isLive t done rows u)
    (hv : vehicleOf t event.imei = some v) {state : VehicleState}
    (hu : Remembers newest v state u u') (v' : Id) :
    (u'.engineStates.find? v').isSome = true ↔ (t.engineStates.find? v').isSome = true ∨
      ∃ event' ∈ done ++ [event], vehicleOf t event'.imei = some v' := by
  rw [hu.cached, h.cached]
  constructor
  · rintro (rfl | hold | ⟨event', hevent', himei⟩)
    · exact .inr ⟨event, by simp, hv⟩
    · exact .inl hold
    · exact .inr ⟨event', List.mem_append_left _ hevent', himei⟩
  · rintro (hold | ⟨event', hevent', himei⟩)
    · exact .inr (.inl hold)
    · rcases List.mem_append.mp hevent' with hdone | hlast
      · exact .inr (.inr ⟨event', hdone, himei⟩)
      · obtain rfl := List.mem_singleton.mp hlast
        exact .inl (Option.some.inj (hv.symm.trans himei))

/-- The detectors have read the event too. -/
theorem known_concat (h : Looked newest isLive t done rows u)
    (hv : vehicleOf t event.imei = some v)
    (hu : Remembers newest v (transitionsFor event (stateOf newest u v) isLive).2 u u')
    (imei : String) (i : EngineInput) :
    Telemetry.known newest u' imei i =
      knownAfter isLive (Telemetry.known newest t imei i) (i.readings imei (done ++ [event])) := by
  rw [EngineInput.readings_append, knownAfter_append, ← h.known]
  by_cases himei : event.imei = imei
  · subst himei
    have hvu : vehicleOf u event.imei = some v := (h.vehicleOf_eq _).trans hv
    rw [hu.known_eq hvu, known_transitionsFor, Telemetry.known, hvu, Option.bind_some]
  · have hne : vehicleOf u imei ≠ some v := fun hvu =>
      himei (vehicleOf_inj hv ((h.vehicleOf_eq imei).symm.trans hvu))
    rw [hu.known_of_ne hne, readings_other himei, knownAfter_nil]

/-- What is new are the transitions that the detectors tell of the event. -/
theorem told_concat (h : Looked newest isLive t done rows u)
    (hv : vehicleOf t event.imei = some v) {imei : String} {v' : Id}
    (hv' : vehicleOf t imei = some v') (i : EngineInput) :
    (rows ++ newRows v event (transitionsFor event (stateOf newest u v) isLive).1).filter
        (isAbout v' i) =
      (Telemetry.told isLive (Telemetry.known newest t imei i)
        (i.readings imei (done ++ [event]))).map (transitionRow v' i) := by
  rw [List.filter_append, h.told imei v' hv' i, EngineInput.readings_append, told_append,
    List.map_append, ← h.known, filter_newRows]
  congr 1
  by_cases himei : event.imei = imei
  · subst himei
    obtain rfl := Option.some.inj (hv.symm.trans hv')
    rw [if_pos rfl, Telemetry.known, h.vehicleOf_eq, hv, Option.bind_some]
  · have hne : v ≠ v' := by
      rintro rfl
      exact himei (vehicleOf_inj hv hv')
    rw [if_neg hne, readings_other himei, told_nil, List.map_nil]

theorem concat (h : Looked newest isLive t done rows u) (hv : vehicleOf t event.imei = some v)
    (hu : Remembers newest v (transitionsFor event (stateOf newest u v) isLive).2 u u') :
    Looked newest isLive t (done ++ [event])
      (rows ++ newRows v event (transitionsFor event (stateOf newest u v) isLive).1) u' where
  db := hu.db.trans h.db
  registry := hu.registry.trans h.registry
  cached := h.cached_concat hv hu
  known := h.known_concat hv hu
  told _ _ hv' := h.told_concat hv hv'
  rows r hr := by
    rcases List.mem_append.mp hr with hr | hr
    · obtain ⟨event', hevent', hspec⟩ := h.rows r hr
      exact ⟨event', List.mem_append_left _ hevent', hspec⟩
    · obtain ⟨transition, _, rfl⟩ := List.mem_map.mp hr
      exact ⟨event, by simp, hv, rfl⟩

end Looked

/-- The step of the loop. -/
theorem does_engineRows {newest : NewestFirst Id} {isLive : Bool} {t : World Id}
    {done : List TelemetryEvent} {rows : List (VehicleEngineEvent Id)} {u : World Id}
    (h : Looked newest isLive t done rows u) {ids : JsMap String Id} {event : TelemetryEvent} {v : Id}
    (hids : ids.find? event.imei = some (event.imei, v)) (hv : vehicleOf t event.imei = some v) :
    ∃ rows' u', Session.Does (engineRows newest ids isLive rows event) u rows' u' ∧
      rows' = rows ++ newRows v event (transitionsFor event (stateOf newest u v) isLive).1 ∧
      Looked newest isLive t (done ++ [event]) rows' u' := by
  obtain ⟨u₁, hload, hremember⟩ := does_loadState newest v u
  refine ⟨_, u₁.remember v (transitionsFor event (stateOf newest u v) isLive).2, ?_, rfl,
    h.concat hv (hremember _)⟩
  unfold engineRows
  rw [hids]
  exact hload.bind ((Session.does_modify _ _).bind rfl)

/-- An event on which the handler fails was of a vehicle whose state it had not loaded yet. -/
theorem fails_engineRows {newest : NewestFirst Id} {isLive : Bool} {ids : JsMap String Id}
    {rows : List (VehicleEngineEvent Id)} {event : TelemetryEvent} {v : Id} {u u' : World Id}
    {label : Statement} {landed : Bool} (hids : ids.find? event.imei = some (event.imei, v))
    (hfails : Session.Fails (engineRows newest ids isLive rows event) u label landed u') :
    label = .selectTransition ∧ u' = u ∧ u.engineStates.find? v = none := by
  unfold engineRows at hfails
  rw [hids] at hfails
  rcases Session.fails_bind.mp hfails with hload | ⟨_, _, _, hrest⟩
  · rcases Session.fails_bind.mp hload with hget | ⟨_, _, hget, hrest⟩
    · exact (Session.not_fails_get hget).elim
    obtain ⟨rfl, rfl⟩ := Session.Does.unique (Session.does_get u) hget
    split at hrest
    · exact (Session.not_fails_pure hrest).elim
    · next hnone =>
      rcases Session.fails_bind.mp hrest with hquery | ⟨_, _, hquery, hrest⟩
      · obtain ⟨rfl, rfl⟩ := Session.fails_query.mp hquery
        exact ⟨rfl, rfl, hnone⟩
      obtain ⟨rfl, rfl⟩ := Session.Does.unique (Session.does_query _ _ _) hquery
      rcases Session.fails_bind.mp hrest with hquery | ⟨_, _, _, hrest⟩
      · obtain ⟨rfl, rfl⟩ := Session.fails_query.mp hquery
        exact ⟨rfl, rfl, hnone⟩
      rcases Session.fails_bind.mp hrest with hmodify | ⟨_, _, _, hpure⟩
      · exact (Session.not_fails_modify hmodify).elim
      · exact (Session.not_fails_pure hpure).elim
  · rcases Session.fails_bind.mp hrest with hmodify | ⟨_, _, _, hpure⟩
    · exact (Session.not_fails_modify hmodify).elim
    · exact (Session.not_fails_pure hpure).elim

/-! ## A batch -/

/-- From `w` to `w'` the detectors have read the events `seen`, and what they tell of the events
`written` was stored. -/
structure Watches (newest : NewestFirst Id) (isLive : Bool) (seen written : List TelemetryEvent)
    (w w' : World Id) : Prop where
  vehicles : ∀ imei v, w.db.vehicles.find? imei = some v → w'.db.vehicles.find? imei = some v
  known : ∀ imei i, known newest w' imei i =
    knownAfter isLive (known newest w imei i) (i.readings imei seen)
  stored : ∀ imei i, stored w' imei i =
    firstWins InputReading.key InputReading.receivedAt (stored w imei i)
      (told isLive (Telemetry.known newest w imei i) (i.readings imei written))
  table : ∃ rows : List (VehicleEngineEvent Id),
    w'.db.vehicleEngineEvents = rows.foldl insertIfFree w.db.vehicleEngineEvents ∧
    (∀ r ∈ rows, ∃ imei, vehicleOf w' imei = some r.vehicleId) ∧
    ∀ imei v, vehicleOf w' imei = some v → ∀ i, rows.filter (isAbout v i) =
      (told isLive (Telemetry.known newest w imei i) (i.readings imei written)).map
        (transitionRow v i)

theorem stored_insert {newest : NewestFirst Id} {isLive : Bool} {t u : World Id}
    {events : List TelemetryEvent} {rows : List (VehicleEngineEvent Id)}
    (h : Looked newest isLive t events rows u)
    (hall : ∀ event ∈ events, (vehicleOf t event.imei).isSome = true) {w' : World Id}
    (hvehicles : w'.db.vehicles = t.db.vehicles)
    (htable : w'.db.vehicleEngineEvents = rows.foldl insertIfFree t.db.vehicleEngineEvents)
    (imei : String) (i : EngineInput) :
    stored w' imei i = firstWins InputReading.key InputReading.receivedAt (stored t imei i)
      (told isLive (known newest t imei i) (i.readings imei events)) := by
  have hsame : vehicleOf w' imei = vehicleOf t imei := by rw [vehicleOf, hvehicles, vehicleOf]
  cases hv : vehicleOf t imei with
  | none =>
    have hnone : i.readings imei events = [] := by
      refine List.filterMap_eq_nil_iff.mpr fun event hevent => if_neg ?_
      rintro rfl
      have hsome := hall event hevent
      rw [hv] at hsome
      cases hsome
    funext x
    rw [hnone, told_nil, firstWins_nil, stored, stored, hsame, hv]
    rfl
  | some v =>
    funext x
    have hname : ∀ (r : InputReading) (x : JsDate × Bool),
        Keyed.key (transitionRow v i r) = (v, x.1, i.eventType x.2) ↔ r.key = x := by
      intro r x
      constructor
      · intro heq
        have htime : r.recordedAt = x.1 := congrArg (fun k => k.2.1) heq
        have htype : i.eventType r.value = i.eventType x.2 := congrArg (fun k => k.2.2) heq
        exact Prod.ext htime (EngineInput.eventType_inj htype).2
      · rintro rfl
        rfl
    rw [stored, hsame, hv, Option.bind_some, htable, find?_insertAll,
      ← firstWins_filter (fun k => k.1 = v && decide (k.2.2 ∈ i.types)) rows
        (by simp [EngineInput.eventType_mem_types])]
    change (firstWins Keyed.key id t.db.vehicleEngineEvents.find? (rows.filter (isAbout v i)) _).map
      _ = _
    rw [h.told imei v hv i, firstWins_map, map_firstWins, firstWins_rename hname]
    congr 1
    funext x
    rw [stored, hv, Option.bind_some]

/-- The insert does not change what is known of a vehicle: it is cached, or has no new rows. -/
theorem known_insert {newest : NewestFirst Id} {isLive : Bool} {t u : World Id}
    {events : List TelemetryEvent} {rows : List (VehicleEngineEvent Id)}
    (h : Looked newest isLive t events rows u) {w' : World Id}
    (hvehicles : w'.db.vehicles = t.db.vehicles) (hstates : w'.engineStates = u.engineStates)
    (htable : w'.db.vehicleEngineEvents = rows.foldl insertIfFree t.db.vehicleEngineEvents)
    (imei : String) (i : EngineInput) : known newest w' imei i = known newest u imei i := by
  have hstate : ∀ v, stateOf newest w' v = stateOf newest u v := by
    intro v
    unfold stateOf
    rw [hstates]
    cases hcached : u.engineStates.find? v with
    | some cached => rfl
    | none =>
      have hlast : ∀ types, lastTransition newest v types w' = lastTransition newest v types u := by
        intro types
        unfold lastTransition
        rw [htable, h.db, filter_insertAll]
        intro r hr
        obtain ⟨event, hevent, hv, _⟩ := h.rows r hr
        have hne : r.vehicleId ≠ v := by
          rintro rfl
          have hsome := (h.cached r.vehicleId).mpr (.inr ⟨event, hevent, hv⟩)
          rw [hcached] at hsome
          cases hsome
        simp [hne]
      rw [hlast, hlast]
  have hsame : vehicleOf w' imei = vehicleOf u imei := by
    rw [vehicleOf, hvehicles, vehicleOf, h.db]
  unfold known
  rw [hsame]
  cases vehicleOf u imei with
  | none => rfl
  | some v => rw [Option.bind_some, Option.bind_some, hstate]

/-- The events were looked at, and their transitions are inserted. -/
theorem Looked.watches {newest : NewestFirst Id} {isLive : Bool} {t u : World Id}
    {events : List TelemetryEvent} {rows : List (VehicleEngineEvent Id)}
    (h : Looked newest isLive t events rows u)
    (hall : ∀ event ∈ events, (vehicleOf t event.imei).isSome = true) {w' : World Id}
    (hvehicles : w'.db.vehicles = t.db.vehicles) (hstates : w'.engineStates = u.engineStates)
    (htable : w'.db.vehicleEngineEvents = rows.foldl insertIfFree t.db.vehicleEngineEvents) :
    Watches newest isLive events events t w' where
  vehicles imei v hv := by rwa [hvehicles]
  known imei i := by rw [known_insert h hvehicles hstates htable, h.known]
  stored := stored_insert h hall hvehicles htable
  table := by
    have hsame : ∀ imei, vehicleOf w' imei = vehicleOf t imei := fun imei => by
      rw [vehicleOf, hvehicles, vehicleOf]
    refine ⟨rows, htable, fun r hr => ?_, fun imei v hv i => ?_⟩
    · obtain ⟨event, _, hv, _⟩ := h.rows r hr
      exact ⟨event.imei, (hsame _).trans hv⟩
    · exact h.told imei v ((hsame imei).symm.trans hv) i

/-- The events were looked at, and nothing was inserted. -/
theorem Looked.unwritten {newest : NewestFirst Id} {isLive : Bool} {t u : World Id}
    {events : List TelemetryEvent} {rows : List (VehicleEngineEvent Id)}
    (h : Looked newest isLive t events rows u) : Watches newest isLive events [] t u where
  vehicles imei v hv := by rwa [h.db]
  known := h.known
  stored imei i := by
    rw [EngineInput.readings, List.filterMap_nil, told_nil, firstWins_nil]
    funext x
    rw [stored, vehicleOf, h.db, stored, vehicleOf]
  table := by
    refine ⟨[], by rw [h.db, List.foldl_nil], fun r hr => ?_, fun imei v hv i => ?_⟩
    · cases hr
    · rw [EngineInput.readings, List.filterMap_nil, told_nil]
      rfl

end BankPlatform.Telemetry
