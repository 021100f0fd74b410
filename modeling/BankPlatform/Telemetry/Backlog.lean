import BankPlatform.Library.Transducer
import BankPlatform.Telemetry.EngineHistory

/-!
# Backlog and live transitions

Batches of the backfill topic share the states of the engine handler, let it load states from the
table, and write into this table. What the handler derives from live batches is told by one
transducer for each device all the same, which reads the live events of this device only.

## Main definitions

* `engineDerivation` — the handler up to its insert; `transitionsOf` — what it has derived then.
* `Handles` — calls of one handler, and what each has derived.
* `liveTransducer` — what the live events of a device tell.

## Main results

* `Handles.live` — the live batches tell what the transducers tell.
* `backlog_never_shows` — backlog, the grouping of events and other devices make no difference.
-/

namespace BankPlatform.Telemetry

open Library Teltonika

variable {Id : Type} [DecidableEq Id]

/-! ## What a call derives -/

section

variable [FreshIds Id]

/-- The engine handler up to its insert: the rows that it is about to insert. -/
def engineDerivation (newest : NewestFirst Id) (events : List TelemetryEvent)
    (freshness : Freshness) : Handler Id (List (VehicleEngineEvent Id)) := do
  let relevant := events.filter concernsEngine
  if relevant.isEmpty then return []
  let vehicleIds ← resolveAll (relevant.map TelemetryEvent.imei)
  relevant.foldlM (engineRows newest vehicleIds (freshness = .live)) []

omit [FreshIds Id] in
/-- The insert of the engine handler. -/
def engineInsertion (rows : List (VehicleEngineEvent Id)) : Handler Id Unit :=
  if rows.isEmpty then return else write .insertEngineEvents (insertEngineEvents rows)

theorem engineHandler_eq (newest : NewestFirst Id) (events : List TelemetryEvent)
    (freshness : Freshness) :
    engineHandler newest events freshness =
      engineDerivation newest events freshness >>= engineInsertion := by
  unfold engineHandler engineDerivation
  change (if (events.filter concernsEngine).isEmpty then _ else _) =
    (if (events.filter concernsEngine).isEmpty then _ else _) >>= _
  split
  · rw [pure_bind]
    rfl
  · rw [bind_assoc]
    rfl

end

/-- The device of a vehicle. -/
def imeiOf (w : World Id) (v : Id) : Option String :=
  (w.db.vehicles.rows.find? fun r => r.id = v).map Vehicle.imei

theorem imeiOf_eq {w : World Id} {imei : String} {v : Id} (h : vehicleOf w imei = some v) :
    imeiOf w v = some imei := by
  obtain ⟨row, hrow, rfl⟩ := Option.map_eq_some_iff.mp h
  have hmem := Table.mem_of_find? hrow
  obtain rfl : row.imei = imei := Table.key_of_find? hrow
  cases hfind : w.db.vehicles.rows.find? fun r => r.id = row.id with
  | none =>
    have hnone := List.find?_eq_none.mp hfind row hmem
    simp at hnone
  | some row' =>
    have hid : row'.id = row.id := by simpa using List.find?_some hfind
    obtain rfl := List.inj_on_of_nodup_map w.db.vehicleIds (List.mem_of_find?_eq_some hfind) hmem
      hid
    rw [imeiOf, hfind, Option.map_some]

/-- What rows say: the device of the vehicle, the time, and the transition. -/
abbrev Transition := Option String × JsDate × EngineEventType

def transitionsOf (w : World Id) (rows : List (VehicleEngineEvent Id)) : List Transition :=
  rows.map fun r => (imeiOf w r.vehicleId, r.recordedAt, r.eventType)

/-! ## Live events -/

/-- What the live events of a device tell, and what is known of its inputs behind them. -/
def liveTransducer : Transducer VehicleState TelemetryEvent (JsDate × EngineEventType) where
  next state event := (transitionsFor event state true).2
  output state event :=
    (transitionsFor event state true).1.map fun t => (JsDate.parse event.recordedAt, t)

/-- One for each device. -/
def liveTransducers : Transducer (String → VehicleState) TelemetryEvent
    (String × JsDate × EngineEventType) := liveTransducer.keyed TelemetryEvent.imei

/-- What the transducers tell, as it is read from rows. -/
def marked (told : List (String × JsDate × EngineEventType)) : List Transition :=
  told.map fun x => (some x.1, x.2)

/-- What a handler knows of the inputs of all devices. -/
def statesOf (newest : NewestFirst Id) (w : World Id) (imei : String) : VehicleState :=
  ⟨known newest w imei .ignition, known newest w imei .movement⟩

theorem state_ext {state state' : VehicleState}
    (h : ∀ i : EngineInput, i.known state = i.known state') : state = state' := by
  obtain ⟨ignition, movement⟩ := state
  obtain ⟨ignition', movement'⟩ := state'
  obtain rfl : ignition = ignition' := h .ignition
  obtain rfl : movement = movement' := h .movement
  rfl

@[simp] theorem known_statesOf (newest : NewestFirst Id) (w : World Id) (imei : String)
    (i : EngineInput) : i.known (statesOf newest w imei) = known newest w imei i := by
  cases i <;> rfl

theorem stateOf_eq_statesOf (newest : NewestFirst Id) {w : World Id} {imei : String} {v : Id}
    (hv : vehicleOf w imei = some v) : stateOf newest w v = statesOf newest w imei := by
  refine state_ext fun i => ?_
  rw [known_statesOf, known, hv, Option.bind_some]

omit [DecidableEq Id] in
/-- The transducer of a device knows what the detectors of its inputs know. -/
theorem known_after (i : EngineInput) {imei : String} {events : List TelemetryEvent}
    (hall : ∀ event ∈ events, event.imei = imei) (state : VehicleState) :
    i.known (liveTransducer.after state events) =
      knownAfter true (i.known state) (i.readings imei events) := by
  induction events generalizing state with
  | nil => exact (knownAfter_nil true _).symm
  | cons event events ih =>
    have hevent := hall event List.mem_cons_self
    have hreadings : i.readings imei (event :: events) =
        i.readings event.imei [event] ++ i.readings imei events := by
      rw [hevent, ← EngineInput.readings_append, List.singleton_append]
    have hrest := ih fun event' hevent' => hall event' (List.mem_cons_of_mem _ hevent')
    rw [Transducer.after_cons, hrest, hreadings, knownAfter_append]
    congr 1
    exact known_transitionsFor i event state true

omit [DecidableEq Id] in
theorem readings_filter_imei (i : EngineInput) (imei : String) (events : List TelemetryEvent) :
    i.readings imei (events.filter fun event => event.imei = imei) = i.readings imei events := by
  rw [EngineInput.readings, EngineInput.readings, List.filterMap_filter]
  refine List.filterMap_congr fun event _ => ?_
  by_cases himei : event.imei = imei <;> simp [EngineInput.reading?, himei]

/-- If the detectors have read some live events, so have the transducers. -/
theorem statesOf_eq_after {newest : NewestFirst Id} {w w' : World Id}
    {events : List TelemetryEvent} (h : ∀ imei i, known newest w' imei i =
      knownAfter true (known newest w imei i) (i.readings imei events)) :
    statesOf newest w' = liveTransducers.after (statesOf newest w) events := by
  funext imei
  have hall : ∀ event ∈ events.filter (fun event => event.imei = imei), event.imei = imei :=
    fun event hevent => of_decide_eq_true (List.mem_filter.mp hevent).2
  refine state_ext fun i => ?_
  rw [known_statesOf, h, liveTransducers, Transducer.after_keyed, known_after i hall,
    known_statesOf, readings_filter_imei]

omit [DecidableEq Id] in
theorem marked_append (told told' : List (String × JsDate × EngineEventType)) :
    marked (told ++ told') = marked told ++ marked told' := List.map_append

/-- The rows of one more live event. -/
theorem transitionsOf_newRows {newest : NewestFirst Id} {t u : World Id}
    {done : List TelemetryEvent} {rows : List (VehicleEngineEvent Id)}
    (h : Looked newest true t done rows u)
    (hrows : transitionsOf t rows = marked (liveTransducers.tells (statesOf newest t) done))
    {event : TelemetryEvent} {v : Id} (hv : vehicleOf t event.imei = some v) :
    transitionsOf t (rows ++ newRows v event (transitionsFor event (stateOf newest u v) true).1) =
      marked (liveTransducers.tells (statesOf newest t) (done ++ [event])) := by
  have hv' : vehicleOf u event.imei = some v := by rw [vehicleOf, h.db]; exact hv
  rw [Transducer.tells_append, marked_append, ← statesOf_eq_after h.known, ← hrows,
    stateOf_eq_statesOf newest hv']
  simp [transitionsOf, newRows, imeiOf_eq hv, marked, liveTransducers, liveTransducer]

omit [DecidableEq Id] in
/-- The other events tell nothing. -/
theorem tells_concernsEngine (states : String → VehicleState) (events : List TelemetryEvent) :
    liveTransducers.tells states (events.filter concernsEngine) =
      liveTransducers.tells states events := by
  have hnone : ∀ (state : VehicleState) (event : TelemetryEvent), concernsEngine event = false →
      transitionsFor event state true = ([], state) := by
    intro state event hevent
    obtain ⟨hignition, hmovement⟩ : event.ignition = none ∧ event.movement = none := by
      simpa [concernsEngine] using hevent
    simp [transitionsFor, inputTransition, hignition, hmovement]
  refine Transducer.tells_filter _ (fun states event hevent => ?_) (fun states event hevent => ?_)
    states events
  · have hnext : liveTransducer.next (states event.imei) event = states event.imei :=
      congrArg Prod.snd (hnone _ _ hevent)
    funext imei
    rw [liveTransducers, Transducer.next_keyed]
    split
    next heq => rw [← heq, hnext]
    next => rfl
  · have houtput : liveTransducer.output (states event.imei) event = [] := by
      change (transitionsFor event (states event.imei) true).1.map _ = []
      rw [hnone _ _ hevent, List.map_nil]
    rw [liveTransducers, Transducer.output_keyed, houtput, List.map_nil]

variable [FreshIds Id]

/-- A live batch tells what the transducers tell of it. -/
theorem does_engineDerivation (newest : NewestFirst Id) {events : List TelemetryEvent}
    (hevents : ∀ event ∈ events, Decodable event) {w : World Id} (hw : EngineReady w) :
    ∃ rows u, Session.Does (engineDerivation newest events .live) w rows u ∧
      transitionsOf u rows = marked (liveTransducers.tells (statesOf newest w) events) := by
  rw [← tells_concernsEngine]
  unfold engineDerivation
  dsimp only
  by_cases hnone : (events.filter concernsEngine).isEmpty
  · refine ⟨[], w, by rw [if_pos hnone]; rfl, ?_⟩
    rw [List.isEmpty_iff.mp hnone]
    rfl
  rw [if_neg hnone]
  have hdigits := imeiDigits_wanted
    (fun event hevent => imeiDigits_of_decodable (hevents event hevent)) concernsEngine
  obtain ⟨ids, t, hids, hresolved⟩ := does_resolveAll hdigits hw.registry
  have hall := hresolved.resolvesEvents
  -- No state was loaded yet, and no row is of a vehicle that was just registered.
  have hstates : statesOf newest t = statesOf newest w := by
    funext imei
    refine state_ext fun i => ?_
    rw [known_statesOf, known_statesOf, hresolved.registers.sameEngine.known_eq hw
      hresolved.registers.engineStates]
  obtain ⟨rows, u, hloop, hlooked, hrows⟩ := Session.Does.foldlM
    (J := fun done rows u => Looked newest true t done rows u ∧
      transitionsOf t rows = marked (liveTransducers.tells (statesOf newest t) done))
    (events.filter concernsEngine) (fun done event hevent rows u ⟨hlooked, hrows⟩ => by
      obtain ⟨v, hid, hv⟩ := hall event hevent
      obtain ⟨rows', u', hdoes, rfl, hlooked'⟩ := does_engineRows hlooked hid hv
      exact ⟨_, u', hdoes, hlooked', transitionsOf_newRows hlooked hrows hv⟩)
    ⟨.refl newest true t, rfl⟩
  refine ⟨rows, u, hids.bind hloop, ?_⟩
  rw [← hstates, ← hrows]
  refine List.map_congr_left fun r _ => ?_
  rw [imeiOf, hlooked.db, imeiOf]

/-! ## Calls -/

/-- The calls of one handler, one after the other, and what each has derived. Calls for further
backlog may fail at any statement. -/
inductive Handles (newest : NewestFirst Id) :
    World Id → List (List TelemetryEvent × Freshness) → List (List Transition) → World Id → Prop
  | done {w} : Handles newest w [] [] w
  | call {w u w' w'' events freshness rows calls told} :
      Session.Does (engineDerivation newest events freshness) w rows u →
      Session.Does (engineInsertion rows) u () w' → Handles newest w' calls told w'' →
      Handles newest w ((events, freshness) :: calls) (transitionsOf u rows :: told) w''
  | failed {w w' w'' events label landed calls told} :
      (∀ event ∈ events, Decodable event) →
      Session.Fails (engineHandler newest events .backfill) w label landed w' →
      Handles newest w' calls told w'' → Handles newest w calls told w''

/-- The live batches. -/
def liveBatches (calls : List (List TelemetryEvent × Freshness)) : List (List TelemetryEvent) :=
  (calls.filter (·.2 = .live)).map Prod.fst

/-- What was derived from each of the live batches. -/
def liveTold (calls : List (List TelemetryEvent × Freshness)) (told : List (List Transition)) :
    List (List Transition) :=
  ((calls.zip told).filter (·.1.2 = .live)).map Prod.snd

/-- Calls with dated events can be handled, and each derives something. -/
theorem exists_handles (newest : NewestFirst Id) {calls : List (List TelemetryEvent × Freshness)}
    (hcalls : ∀ call ∈ calls, ∀ event ∈ call.1, Decodable event)
    (hdates : ∀ call ∈ calls, ∀ event ∈ call.1, Dated event) {w : World Id}
    (hw : EngineReady w) : ∃ told w', Handles newest w calls told w' := by
  induction calls generalizing w with
  | nil => exact ⟨[], w, .done⟩
  | cons call calls ih =>
    obtain ⟨w₁, hdoes, hready⟩ := does_engineHandler newest (hcalls call List.mem_cons_self)
      (hdates call List.mem_cons_self) call.2 hw
    rw [engineHandler_eq] at hdoes
    obtain ⟨rows, u, hderives, hinserts⟩ := Session.does_bind.mp hdoes
    obtain ⟨told, w', hrest⟩ :=
      ih (fun call' hcall' => hcalls call' (List.mem_cons_of_mem _ hcall'))
        (fun call' hcall' => hdates call' (List.mem_cons_of_mem _ hcall')) hready
    exact ⟨_, w', .call hderives hinserts hrest⟩

omit [FreshIds Id] in
/-- Behind a backfill batch as much is known as before. -/
theorem Watches.statesOf_backfill {newest : NewestFirst Id} {seen written : List TelemetryEvent}
    {w w' : World Id} (h : Watches newest false seen written w w') :
    statesOf newest w' = statesOf newest w := by
  funext imei
  refine state_ext fun i => ?_
  rw [known_statesOf, known_statesOf, h.known]
  rfl

/-- The live batches tell what the transducers tell of them, whatever backlog comes in between. -/
theorem Handles.live {newest : NewestFirst Id} {w w' : World Id}
    {calls : List (List TelemetryEvent × Freshness)} {told : List (List Transition)}
    (h : Handles newest w calls told w') (hw : EngineReady w)
    (hcalls : ∀ call ∈ calls, ∀ event ∈ call.1, Decodable event) :
    liveTold calls told =
      (liveTransducers.tellsEach (statesOf newest w) (liveBatches calls)).map marked := by
  induction h with
  | done => rfl
  | @call w u w₁ w' events freshness rows calls told hderives hinserts _ ih =>
    have hevents : ∀ event ∈ events, Decodable event :=
      hcalls (events, freshness) List.mem_cons_self
    have hdoes : Session.Does (engineHandler newest events freshness) w () w₁ := by
      rw [engineHandler_eq]
      exact hderives.bind hinserts
    obtain ⟨hready, hwatches⟩ := watches_of_does hevents hw hdoes
    have hrest := ih hready fun call hcall => hcalls call (List.mem_cons_of_mem _ hcall)
    cases freshness with
    | live =>
      obtain ⟨rows', u', hderives', htransitions⟩ := does_engineDerivation newest hevents hw
      obtain ⟨rfl, rfl⟩ := hderives.unique hderives'
      have hafter := statesOf_eq_after hwatches.known
      change transitionsOf u' rows' :: liveTold calls told =
        marked (liveTransducers.tells (statesOf newest w) events) ::
          (liveTransducers.tellsEach (liveTransducers.after (statesOf newest w) events)
            (liveBatches calls)).map marked
      rw [htransitions, hrest, hafter]
    | backfill =>
      change liveTold calls told =
        (liveTransducers.tellsEach (statesOf newest w) (liveBatches calls)).map marked
      rw [hrest, Watches.statesOf_backfill hwatches]
  | failed hevents hfails _ ih =>
    obtain ⟨seen, written, hready, hwatches, -⟩ := fails_engineHandler newest hevents hw hfails
    rw [ih hready hcalls, Watches.statesOf_backfill hwatches]

omit [DecidableEq Id] [FreshIds Id] in
/-- What is told of a device depends on its own live events, in their order. -/
theorem told_of_device (states : String → VehicleState) (batches : List (List TelemetryEvent))
    (imei : String) :
    ((liveTransducers.tellsEach states batches).map marked).flatten.filter (·.1 = some imei) =
      (liveTransducer.tells (states imei) (batches.flatten.filter (·.imei = imei))).map
        (Prod.mk (some imei)) := by
  have hmarked : ((liveTransducers.tellsEach states batches).map marked).flatten =
      marked (liveTransducers.tellsEach states batches).flatten := List.map_flatten.symm
  rw [hmarked, Transducer.flatten_tellsEach, marked, List.filter_map]
  simp only [Function.comp_def, Option.some.injEq]
  rw [liveTransducers, Transducer.tells_keyed, List.map_map]
  rfl

/-- Two sequences of batches over the same table and states. With the same live batches, each of
them derives the same, whatever backlog comes when; and with the same live events of a device in any
batches and among any others, the same is derived of this device. Calls whose time stamps the
columns take can be handled. -/
theorem backlog_never_shows (newest : NewestFirst Id) {w : World Id} (hw : EngineReady w)
    {calls calls' : List (List TelemetryEvent × Freshness)}
    (hcalls : ∀ call ∈ calls, ∀ event ∈ call.1, Decodable event)
    (hcalls' : ∀ call ∈ calls', ∀ event ∈ call.1, Decodable event) :
    ((∀ call ∈ calls, ∀ event ∈ call.1, Dated event) → ∃ told w₁, Handles newest w calls told w₁) ∧
      ∀ told told' w₁ w₁', Handles newest w calls told w₁ → Handles newest w calls' told' w₁' →
        (liveBatches calls = liveBatches calls' → liveTold calls told = liveTold calls' told') ∧
        ∀ imei, (eventsOf .live calls).filter (·.imei = imei) =
            (eventsOf .live calls').filter (·.imei = imei) →
          (liveTold calls told).flatten.filter (·.1 = some imei) =
            (liveTold calls' told').flatten.filter (·.1 = some imei) := by
  refine ⟨fun hdates => exists_handles newest hcalls hdates hw, fun told told' w₁ w₁' h h' => ?_⟩
  rw [h.live hw hcalls, h'.live hw hcalls']
  refine ⟨fun hbatches => by rw [hbatches], fun imei hevents => ?_⟩
  rw [told_of_device, told_of_device]
  exact congrArg (fun events => (liveTransducer.tells _ events).map _) hevents

theorem backlog_never_shows_onInBackfill : ∃ told told' w₁ w₁',
    Handles .stored emptyWorld onInBackfill told w₁ ∧
      Handles .stored emptyWorld (onInBackfill.filter (·.2 = .live)) told' w₁' ∧
      liveTold onInBackfill told = liveTold (onInBackfill.filter (·.2 = .live)) told' := by
  have hready : EngineReady emptyWorld := .start fun r hr => by cases hr
  have hlive : ∀ call ∈ onInBackfill.filter (·.2 = .live), ∀ event ∈ call.1, Decodable event :=
    fun call hcall => decodable_onInBackfill call (List.mem_of_mem_filter hcall)
  have hdated : ∀ call ∈ onInBackfill.filter (·.2 = .live), ∀ event ∈ call.1, Dated event :=
    fun call hcall => dated_onInBackfill call (List.mem_of_mem_filter hcall)
  obtain ⟨hhandles, hsame⟩ :=
    backlog_never_shows .stored hready decodable_onInBackfill hlive
  obtain ⟨told, w₁, h⟩ := hhandles dated_onInBackfill
  obtain ⟨told', w₁', h'⟩ := exists_handles .stored hlive hdated hready
  refine ⟨told, told', w₁, w₁', h, h', (hsame told told' w₁ w₁' h h').1 ?_⟩
  simp only [liveBatches, List.filter_filter, Bool.and_self]

end BankPlatform.Telemetry
