import BankPlatform.Telemetry.AlertRuns
import BankPlatform.Telemetry.EngineCalls

/-!
# Repeated and restarted calls of the engine handler

Kafka delivers a batch again when its call failed, and may do so when it succeeded; a process may
stop and another one go on. What the handler knows of an input is then not what it knew, and this
shows at the first reading that comes next.

## Main definitions

* `engineRowsOf` — the rows of a device.
* `Immaterial`, `Remembered` — when it makes no difference whether a reading is told.
* `seedBehind` — what a new process finds in the table.

## Main results

* `engine_redelivery_iff` — a batch that is delivered twice.
* `engine_retry_iff` — a call that fails and is repeated.
* `engine_restart_iff` — a process that goes on for another one.
-/

namespace BankPlatform.Telemetry

open Library Teltonika

variable {Id : Type} [DecidableEq Id]

/-! ## Rows -/

/-- The rows of a device: when a transition was recorded and received, and what it is. -/
def engineRowsOf (w : World Id) (imei : String) : Set (JsDate × JsDate × EngineEventType) :=
  {x | ∃ r ∈ w.db.vehicleEngineEvents.rows, vehicleOf w imei = some r.vehicleId ∧
    x = (r.recordedAt, r.receivedAt, r.eventType)}

theorem mem_engineRowsOf {w : World Id} {imei : String} {recordedAt receivedAt : JsDate}
    {i : EngineInput} {b : Bool} :
    (recordedAt, receivedAt, i.eventType b) ∈ engineRowsOf w imei ↔
      stored w imei i (recordedAt, b) = some receivedAt := by
  constructor
  · rintro ⟨r, hr, hv, heq⟩
    obtain ⟨rfl, rfl, htype⟩ : recordedAt = r.recordedAt ∧ receivedAt = r.receivedAt ∧
        i.eventType b = r.eventType := by simpa using heq
    rw [stored, hv, Option.bind_some, htype]
    have hfind := Table.find?_key hr
    exact Option.map_eq_some_iff.mpr ⟨r, hfind, rfl⟩
  · intro h
    obtain ⟨v, hv, h⟩ := Option.bind_eq_some_iff.mp h
    obtain ⟨r, hfind, rfl⟩ := Option.map_eq_some_iff.mp h
    have hkey : (r.vehicleId, r.recordedAt, r.eventType) = (v, recordedAt, i.eventType b) :=
      Table.key_of_find? hfind
    simp only [Prod.mk.injEq] at hkey
    obtain ⟨rfl, rfl, htype⟩ := hkey
    exact ⟨r, Table.mem_of_find? hfind, hv, by rw [htype]⟩

/-- Two worlds have the same rows exactly if the same is stored of every input. -/
theorem engineRowsOf_eq_iff {w w' : World Id} :
    (∀ imei, engineRowsOf w imei = engineRowsOf w' imei) ↔
      ∀ imei i, stored w imei i = stored w' imei i := by
  constructor
  · intro h imei i
    funext ⟨recordedAt, b⟩
    refine Option.ext fun receivedAt => ?_
    rw [← mem_engineRowsOf, h, mem_engineRowsOf]
  · intro h imei
    ext ⟨recordedAt, receivedAt, t⟩
    obtain ⟨i, b, rfl⟩ := EngineInput.exists_eventType t
    rw [mem_engineRowsOf, mem_engineRowsOf, h]

/-- A table that holds the same of every input is the same table. -/
theorem table_eq_iff {newest : NewestFirst Id} {isLive : Bool}
    {seen written : List TelemetryEvent} {w w' : World Id} (hw : EngineReady w)
    (h : Watches newest isLive seen written w w') :
    w'.db.vehicleEngineEvents = w.db.vehicleEngineEvents ↔
      ∀ imei i, stored w' imei i = stored w imei i := by
  constructor
  · intro htable imei i
    exact (SameEngine.mk h.vehicles htable).stored_eq hw imei i
  · intro hstored
    obtain ⟨rows, htable, hrows, _⟩ := h.table
    rw [htable]
    refine insertAll_eq_self fun r hr => ?_
    obtain ⟨imei, hv⟩ := hrows r hr
    obtain ⟨i, b, htype⟩ := EngineInput.exists_eventType r.eventType
    have hnew : (stored w' imei i (r.recordedAt, b)).isSome = true := by
      rw [stored, hv, Option.bind_some, Option.isSome_map, ← htype, htable, find?_insertAll,
        isSome_firstWins]
      exact .inr ⟨r, hr, rfl⟩
    rw [hstored] at hnew
    cases hold : vehicleOf w imei with
    | none => simp [stored, hold] at hnew
    | some v =>
      have hsame : v = r.vehicleId := by
        obtain ⟨row, hrow, rfl⟩ := Option.map_eq_some_iff.mp hold
        rw [vehicleOf, h.vehicles imei row hrow] at hv
        exact Option.some.inj hv
      rw [stored, hold, Option.bind_some, Option.isSome_map, ← htype, hsame] at hnew
      exact hnew

/-! ## Readings that make no difference -/

/-- It makes no difference whether the first reading is told: its transition is stored, or the next
one that is told at the same time with the same value was received at the same time. -/
def Immaterial (base : JsDate × Bool → Option JsDate) (first : InputReading)
    (rest : List InputReading) : Prop :=
  (base first.key).isSome = true ∨
    ((engineDetector.shown (some first.value) rest).find? fun r => r.key = first.key).map
      InputReading.receivedAt = some first.receivedAt

theorem firstWins_shown_iff {base : JsDate × Bool → Option JsDate} (known known' : Option Bool)
    (rs : List InputReading) :
    firstWins InputReading.key InputReading.receivedAt base (engineDetector.shown known rs) =
        firstWins InputReading.key InputReading.receivedAt base (engineDetector.shown known' rs) ↔
      ∀ first ∈ rs.head?, engineDetector.shows known first = engineDetector.shows known' first ∨
        Immaterial base first rs.tail := by
  rw [ChangeDetector.firstWins_shown_eq]
  refine forall₂_congr fun first _ => or_congr_right ?_
  unfold Immaterial firstWins
  cases base first.key with
  | some receivedAt => simp
  | none => simp [engineDetector]

/-- The transition of the first reading of a batch is stored, or the batch tells one with its time
and value. -/
def Remembered (newest : NewestFirst Id) (w : World Id) (events : List TelemetryEvent)
    (imei : String) (i : EngineInput) (first : InputReading) : Prop :=
  (stored w imei i first.key).isSome = true ∨
    ∃ r ∈ engineDetector.shown (known newest w imei i) (i.readings imei events), r.key = first.key

theorem remembered_of_reported {newest : NewestFirst Id} {w : World Id}
    {events : List TelemetryEvent} {imei : String} {i : EngineInput} {first : InputReading}
    (hfirst : first ∈ (i.readings imei events).head?) (h : first.reported = true) :
    Remembered newest w events imei i first := by
  obtain ⟨rest, hrest⟩ := List.head?_eq_some_iff.mp hfirst
  refine .inr ⟨first, ?_, rfl⟩
  rw [hrest, ChangeDetector.shown_cons_of_shows (ChangeDetector.shows_of_reported h _)]
  exact List.mem_cons_self

/-! ## What a new process finds -/

/-- The rows about an input of a vehicle when the transitions of some events were added. -/
def rowsBehind (newest : NewestFirst Id) (w : World Id) (events : List TelemetryEvent)
    (imei : String) (i : EngineInput) (v : Id) : List (VehicleEngineEvent Id) :=
  ((engineDetector.shown (known newest w imei i) (i.readings imei events)).map
    (transitionRow v i)).foldl addFree (w.db.vehicleEngineEvents.rows.filter (isAbout v i))

/-- What the newest of these rows says about the input. -/
def seedBehind (newest : NewestFirst Id) (w : World Id) (events : List TelemetryEvent)
    (imei : String) (i : EngineInput) (v : Id) : Option Bool :=
  (newest.pick (rowsBehind newest w events imei i v)).map fun r => r.eventType = i.eventType true

/-- A new process finds in the table what was stored before and what the batch told. -/
theorem known_start {newest : NewestFirst Id} {events seen : List TelemetryEvent} {w w' : World Id}
    (h : Watches newest true seen events w w') (imei : String) (i : EngineInput) :
    known newest (World.start w'.db) imei i =
      (vehicleOf w' imei).bind (seedBehind newest w events imei i) := by
  have hof : vehicleOf (World.start w'.db) imei = vehicleOf w' imei := rfl
  rw [known, hof]
  cases hv : vehicleOf w' imei with
  | none => rfl
  | some v =>
    obtain ⟨rows, htable, _, htold⟩ := h.table
    have hkeys : ∀ r r' : VehicleEngineEvent Id, Keyed.key r = Keyed.key r' →
        isAbout v i r = isAbout v i r' := by
      intro r r' hkey
      have hvehicle : r.vehicleId = r'.vehicleId := congrArg Prod.fst hkey
      have htype : r.eventType = r'.eventType := congrArg (fun k => k.2.2) hkey
      rw [isAbout, isAbout, hvehicle, htype]
    have hrows : w'.db.vehicleEngineEvents.rows.filter (isAbout v i) =
        rowsBehind newest w events imei i v := by
      rw [htable, rows_insertAll, filter_foldl_addFree hkeys, htold imei v hv i]
      rfl
    have hlast : ∀ types, (∀ t, types.contains t = decide (t ∈ i.types)) →
        lastTransition newest v types (World.start w'.db) =
          (newest.pick (rowsBehind newest w events imei i v)).map VehicleEngineEvent.eventType := by
      intro types htypes
      rw [lastTransition, ← hrows]
      simp only [htypes]
      rfl
    rw [Option.bind_some, Option.bind_some, seedBehind, stateOf]
    cases i with
    | ignition =>
      change (lastTransition newest v IGNITION_EVENTS (World.start w'.db)).map _ = _
      rw [hlast IGNITION_EVENTS (fun t => List.contains_eq_mem _ _), Option.map_map]
      rfl
    | movement =>
      change (lastTransition newest v MOVEMENT_EVENTS (World.start w'.db)).map _ = _
      rw [hlast MOVEMENT_EVENTS (fun t => List.contains_eq_mem _ _), Option.map_map]
      rfl

/-! ## Redelivery -/

/-- For each input of each device: the first and the last reading of the batch show the same value,
or the transition of the first one is remembered. -/
def EndsAsItStarts (newest : NewestFirst Id) (w : World Id) (events : List TelemetryEvent) : Prop :=
  ∀ imei (i : EngineInput), ∀ first ∈ (i.readings imei events).head?,
    ∀ last ∈ (i.readings imei events).getLast?,
      first.value = last.value ∨ Remembered newest w events imei i first

/-- For each input of each device: the newest transition behind the batch does not contradict its
first reading, or the transition of this reading is remembered. -/
def StartsAsStored (newest : NewestFirst Id) (w : World Id) (vehicles : String → Option Id)
    (events : List TelemetryEvent) : Prop :=
  ∀ imei (i : EngineInput), ∀ first ∈ (i.readings imei events).head?, ∀ v, vehicles imei = some v →
    seedBehind newest w events imei i v ≠ some (!first.value) ∨
      Remembered newest w events imei i first

/-- A second pass over a live batch adds nothing exactly if no first reading that it tells is new. -/
theorem again_iff {newest : NewestFirst Id} {events seen seen' : List TelemetryEvent}
    {w w₁ w₁' w₂ : World Id} (hfirst : Watches newest true seen events w w₁)
    (hsame : ∀ imei i, stored w₁' imei i = stored w₁ imei i)
    (hsecond : Watches newest true seen' events w₁' w₂) :
    (∀ imei i, stored w₂ imei i = stored w₁' imei i) ↔
      ∀ imei i, ∀ first ∈ (i.readings imei events).head?,
        engineDetector.shows (known newest w₁' imei i) first = true →
          Remembered newest w events imei i first := by
  refine forall₂_congr fun imei i => ?_
  rw [hsecond.stored, hsame, hfirst.stored]
  exact ChangeDetector.firstWins_again_shown _ _ _

theorem shows_iff {newest : NewestFirst Id} {w : World Id} {events : List TelemetryEvent}
    {imei : String} {i : EngineInput} {first : InputReading}
    (hfirst : first ∈ (i.readings imei events).head?) (known' : Option Bool) :
    (engineDetector.shows known' first = true → Remembered newest w events imei i first) ↔
      known' ≠ some (!first.value) ∨ Remembered newest w events imei i first := by
  by_cases hremembered : Remembered newest w events imei i first
  · simp [hremembered]
  have hunreported : first.reported = false := by
    cases hreported : first.reported with
    | false => rfl
    | true => exact (hremembered (remembered_of_reported hfirst hreported)).elim
  rcases known' with _ | _ | _ <;> cases hvalue : first.value <;>
    simp [ChangeDetector.shows, engineDetector, hremembered, hunreported, hvalue]

/-- The second pass of the same process. -/
theorem again_stored_iff {newest : NewestFirst Id} {freshness : Freshness}
    {events seen : List TelemetryEvent} {w w₁ w₂ : World Id}
    (hfirst : Watches newest (freshness = .live) events events w w₁)
    (hsecond : Watches newest (freshness = .live) seen events w₁ w₂) :
    (∀ imei i, stored w₂ imei i = stored w₁ imei i) ↔
      (freshness = .live → EndsAsItStarts newest w events) := by
  cases freshness with
  | backfill =>
    refine iff_of_true (fun imei i => ?_) fun h => by cases h
    rw [hsecond.stored, hfirst.stored]
    exact firstWins_again _
  | live =>
    rw [again_iff hfirst (fun _ _ => rfl) hsecond, forall_prop_of_true rfl]
    refine forall₂_congr fun imei i => forall₂_congr fun first hhead => ?_
    rw [shows_iff hhead, hfirst.known]
    obtain ⟨last, hlast⟩ : ∃ last, (i.readings imei events).getLast? = some last := by
      rw [← Option.isSome_iff_exists, List.getLast?_isSome]
      exact List.ne_nil_of_mem (List.mem_of_head? hhead)
    have hknown : knownAfter (Freshness.live = .live) (known newest w imei i)
        (i.readings imei events) = some last.value := by
      simp [knownAfter, ChangeDetector.after, hlast, engineDetector]
    rw [hknown, hlast]
    simp only [Option.mem_some_iff, forall_eq']
    cases first.value <;> cases last.value <;> simp

theorem again_unchanged_iff {newest : NewestFirst Id} {freshness : Freshness}
    {events seen : List TelemetryEvent} {w w₁ w₂ : World Id} (hready : EngineReady w₁)
    (hfirst : Watches newest (freshness = .live) events events w w₁)
    (hsecond : Watches newest (freshness = .live) seen events w₁ w₂) :
    w₂.db.vehicleEngineEvents = w₁.db.vehicleEngineEvents ↔
      (freshness = .live → EndsAsItStarts newest w events) := by
  rw [table_eq_iff hready hsecond, again_stored_iff hfirst hsecond]

/-- The second pass of a new process. -/
theorem restarted_unchanged_iff {newest : NewestFirst Id} {freshness : Freshness}
    {events : List TelemetryEvent} {w w₁ w₂ : World Id} (hready : EngineReady (World.start w₁.db))
    (hfirst : Watches newest (freshness = .live) events events w w₁)
    (hsecond : Watches newest (freshness = .live) events events (World.start w₁.db) w₂) :
    w₂.db.vehicleEngineEvents = w₁.db.vehicleEngineEvents ↔
      (freshness = .live → StartsAsStored newest w (vehicleOf w₁) events) := by
  have hsame : ∀ imei i, stored (World.start w₁.db) imei i = stored w₁ imei i := fun _ _ => rfl
  change w₂.db.vehicleEngineEvents = (World.start w₁.db).db.vehicleEngineEvents ↔ _
  rw [table_eq_iff hready hsecond]
  cases freshness with
  | backfill =>
    refine iff_of_true (fun imei i => ?_) fun h => by cases h
    rw [hsecond.stored, hsame, hfirst.stored]
    exact firstWins_again _
  | live =>
    rw [again_iff hfirst hsame hsecond, forall_prop_of_true rfl]
    refine forall₂_congr fun imei i => forall₂_congr fun first hhead => ?_
    rw [shows_iff hhead, known_start hfirst]
    cases vehicleOf w₁ imei with
    | none => simp
    | some v => simp

variable [FreshIds Id]

/-- A batch is delivered twice, the second time to the same process or to a new one: when the table
stays as it is. A call succeeds if the columns take the time stamps of the batch. -/
theorem engine_redelivery_iff (newest : NewestFirst Id) {w : World Id} (hw : EngineReady w)
    (events : List TelemetryEvent) (hevents : ∀ event ∈ events, Decodable event)
    (freshness : Freshness) :
    (∀ w₁, Session.Does (engineHandler newest events freshness) w () w₁ →
      (∀ again, Session.Does (engineHandler newest events freshness) w₁ () again →
        (again.db.vehicleEngineEvents = w₁.db.vehicleEngineEvents ↔
          (freshness = .live → EndsAsItStarts newest w events))) ∧
      ∀ restarted,
        Session.Does (engineHandler newest events freshness) (World.start w₁.db) () restarted →
        (restarted.db.vehicleEngineEvents = w₁.db.vehicleEngineEvents ↔
          (freshness = .live → StartsAsStored newest w (vehicleOf w₁) events))) ∧
    ((∀ event ∈ events, Dated event) → ∃ w₁ again restarted,
      Session.Does (engineHandler newest events freshness) w () w₁ ∧
      Session.Does (engineHandler newest events freshness) w₁ () again ∧
      Session.Does (engineHandler newest events freshness) (World.start w₁.db) () restarted) := by
  constructor
  · intro w₁ hdoes
    obtain ⟨hready, hwatches⟩ := watches_of_does hevents hw hdoes
    have hstart : EngineReady (World.start w₁.db) := .start hready.rows
    refine ⟨fun again hagain => ?_, fun restarted hrestarted => ?_⟩
    · obtain ⟨-, hwatches'⟩ := watches_of_does hevents hready hagain
      exact again_unchanged_iff hready hwatches hwatches'
    · obtain ⟨-, hwatches'⟩ := watches_of_does hevents hstart hrestarted
      exact restarted_unchanged_iff hstart hwatches hwatches'
  · intro hdates
    obtain ⟨w₁, hdoes, hready⟩ := does_engineHandler newest hevents hdates freshness hw
    obtain ⟨again, hagain, -⟩ := does_engineHandler newest hevents hdates freshness hready
    obtain ⟨restarted, hrestarted, -⟩ :=
      does_engineHandler newest hevents hdates freshness (.start hready.rows)
    exact ⟨w₁, again, restarted, hdoes, hagain, hrestarted⟩

/-- A report of one device about its ignition. -/
def contact (time : String) (on : Bool) : TelemetryEvent :=
  { report time [] with ignition := some on }

theorem decodable_contact {time : String} (on : Bool)
    (htime : (JsDate.parse (report time []).recordedAt).isSome = true) :
    Decodable (contact time on) where
  schemaVersion := rfl
  dedupKey := by
    have hlength : "356307042441013:".length = 16 := by decide
    simp only [contact, report, String.length_append, hlength]
    omega
  imei := (by decide : "356307042441013".length = 15 ∧
    "356307042441013".toList.all Char.isDigit = true)
  recordedAt := htime
  receivedAt := htime
  priority := ⟨Nat.zero_le _, le_refl 0⟩
  eventIoId := ⟨Nat.zero_le _, le_refl 0⟩
  gps gps hgps := by cases hgps
  fuel reading hreading := by cases hreading
  externalVoltageMv z hz := by cases hz
  batteryVoltageMv z hz := by cases hz
  odometerM z hz := by cases hz

theorem engineReady_emptyWorld : EngineReady emptyWorld :=
  .start fun r hr => by cases hr

/-- The world behind a call. -/
def behindCall (w : World ℕ) (events : List TelemetryEvent) : World ℕ :=
  match Session.run (engineHandler .stored events .live) none w with
  | .done _ w' => w'
  | _ => w

/-- The ignition is on, and a minute later off. -/
def switchedOff : List TelemetryEvent := [contact "01:00" true, contact "02:00" false]

theorem decodable_switchedOff : ∀ event ∈ switchedOff, Decodable event := by
  simp only [switchedOff, List.forall_mem_cons, List.not_mem_nil, false_imp_iff, implies_true,
    and_true]
  exact ⟨decodable_contact true (by decide), decodable_contact false (by decide)⟩

theorem dated_switchedOff : ∀ event ∈ switchedOff, Dated event := by decide

/-- The first pass stores that the ignition was switched off. -/
theorem engine_redelivery_switchedOff : ∃ w₁ again restarted,
    Session.Does (engineHandler .stored switchedOff .live) emptyWorld () w₁ ∧
      w₁.db.vehicleEngineEvents.rows.map VehicleEngineEvent.eventType = [.ignitionOff] ∧
      Session.Does (engineHandler .stored switchedOff .live) w₁ () again ∧
      Session.Does (engineHandler .stored switchedOff .live) (World.start w₁.db) () restarted ∧
      (again.db.vehicleEngineEvents = w₁.db.vehicleEngineEvents ↔
        (Freshness.live = .live → EndsAsItStarts .stored emptyWorld switchedOff)) ∧
      (restarted.db.vehicleEngineEvents = w₁.db.vehicleEngineEvents ↔
        (Freshness.live = .live →
          StartsAsStored .stored emptyWorld (vehicleOf w₁) switchedOff)) := by
  obtain ⟨hiff, hcalls⟩ :=
    engine_redelivery_iff .stored engineReady_emptyWorld switchedOff decodable_switchedOff .live
  obtain ⟨w₁, again, restarted, hdoes, hagain, hrestarted⟩ := hcalls dated_switchedOff
  have hfirst : Session.Does (engineHandler .stored switchedOff .live) emptyWorld ()
      (behindCall emptyWorld switchedOff) := rfl
  have hstored : w₁.db.vehicleEngineEvents.rows.map VehicleEngineEvent.eventType =
      [.ignitionOff] := by
    rw [(hfirst.unique hdoes).2]
    decide
  obtain ⟨hagain', hrestarted'⟩ := hiff w₁ hdoes
  exact ⟨w₁, again, restarted, hdoes, hstored, hagain, hrestarted, hagain' again hagain,
    hrestarted' restarted hrestarted⟩

/-- The second pass over a batch invents a transition: the ignition was not switched on. -/
theorem redelivery_invents : ¬ ∀ (newest : NewestFirst ℕ) (w : World ℕ), EngineReady w →
    ∀ events : List TelemetryEvent, (∀ event ∈ events, Decodable event) → ∀ freshness w₁ w₂,
      Session.Does (engineHandler newest events freshness) w () w₁ →
      Session.Does (engineHandler newest events freshness) w₁ () w₂ →
        w₂.db.vehicleEngineEvents = w₁.db.vehicleEngineEvents := by
  intro hclaim
  obtain ⟨w₁, hdoes, hready⟩ := does_engineHandler .stored decodable_switchedOff
    dated_switchedOff .live engineReady_emptyWorld
  obtain ⟨w₂, hagain, -⟩ := does_engineHandler .stored decodable_switchedOff dated_switchedOff
    .live hready
  obtain ⟨-, hwatches⟩ := watches_of_does decodable_switchedOff engineReady_emptyWorld hdoes
  obtain ⟨-, hwatches'⟩ := watches_of_does decodable_switchedOff hready hagain
  have hsame := hclaim .stored emptyWorld engineReady_emptyWorld switchedOff decodable_switchedOff
    .live w₁ w₂ hdoes hagain
  have hends := (again_unchanged_iff hready hwatches hwatches').mp hsame rfl "356307042441013"
    .ignition
  have hreadings : EngineInput.ignition.readings "356307042441013" switchedOff =
      [⟨some 1704067260000, some 1704067260000, true, false⟩,
        ⟨some 1704067320000, some 1704067320000, false, false⟩] := by decide
  rw [hreadings] at hends
  rcases hends _ rfl _ rfl with hvalue | hstored | ⟨r, hr, hkey⟩
  · cases hvalue
  · cases hstored
  · rw [hreadings] at hr
    have hshown : engineDetector.shown (known .stored emptyWorld "356307042441013" .ignition)
        [⟨some 1704067260000, some 1704067260000, true, false⟩,
          ⟨some 1704067320000, some 1704067320000, false, false⟩] =
        [⟨some 1704067320000, some 1704067320000, false, false⟩] := by decide
    rw [hshown] at hr
    obtain rfl := List.mem_singleton.mp hr
    cases hkey

/-! ## A failure and a retry -/

/-- The retry of a live batch makes up for a call that failed behind the events `seen`. If the
insert took effect, it is a second pass. Otherwise, for each input of each device: what the handler
knows by then tells the first reading of the batch as what it knew before does, or this is
immaterial. -/
def RetryCovers (newest : NewestFirst Id) (w : World Id) (events seen : List TelemetryEvent)
    (landed : Bool) : Prop :=
  if landed then EndsAsItStarts newest w events
  else ∀ imei (i : EngineInput), ∀ first ∈ (i.readings imei events).head?,
    engineDetector.shows (engineDetector.after (known newest w imei i) (i.readings imei seen)) first =
        engineDetector.shows (known newest w imei i) first ∨
      Immaterial (stored w imei i) first (i.readings imei events).tail

/-- The insert of the transitions took effect although it failed. -/
def insertLanded (label : Statement) (landed : Bool) : Bool :=
  label = .insertEngineEvents && landed

omit [FreshIds Id] in
theorem StopsAt.written {w : World Id} {events seen written : List TelemetryEvent}
    {label : Statement} {landed : Bool} (h : StopsAt w events label landed seen written) :
    written = if insertLanded label landed then events.filter concernsEngine else [] := by
  cases h with
  | registering hlabel =>
    have hne : label ≠ .insertEngineEvents := by
      rintro rfl
      cases hlabel
    simp [insertLanded, hne]
  | loading => simp [insertLanded]
  | inserting => simp [insertLanded]

omit [FreshIds Id] in
theorem StopsAt.seen_of_landed {w : World Id} {events seen written : List TelemetryEvent}
    {label : Statement} {landed : Bool} (h : StopsAt w events label landed seen written)
    (hlanded : insertLanded label landed = true) : seen = events.filter concernsEngine := by
  cases h with
  | registering hlabel =>
    rw [insertLanded, Bool.and_eq_true, decide_eq_true_iff] at hlanded
    rw [hlanded.1] at hlabel
    cases hlabel
  | loading => cases hlanded
  | inserting => rfl

omit [FreshIds Id] in
/-- The retry of a call that stopped in `w'`, and a call without a failure. -/
theorem retry_stored_iff {newest : NewestFirst Id} {freshness : Freshness}
    {events seen written : List TelemetryEvent} {w w' once retried : World Id} {label : Statement}
    {landed : Bool} (hstops : StopsAt w events label landed seen written)
    (hfailed : Watches newest (freshness = .live) seen written w w')
    (honce : Watches newest (freshness = .live) events events w once)
    (hretried : Watches newest (freshness = .live) events events w' retried) :
    (∀ imei i, stored retried imei i = stored once imei i) ↔
      (freshness = .live → RetryCovers newest w events seen (insertLanded label landed)) := by
  have hwritten := hstops.written
  unfold RetryCovers
  cases hlanded : insertLanded label landed with
  | true =>
    rw [hlanded, if_pos rfl] at hwritten
    rw [hstops.seen_of_landed hlanded, hwritten] at hfailed
    have hfirst := hfailed.of_filter
    have hsame : ∀ imei i, stored once imei i = stored w' imei i := fun imei i => by
      rw [honce.stored, hfirst.stored]
    simp only [hsame, if_true]
    exact again_stored_iff hfirst hretried
  | false =>
    rw [hlanded, if_neg (by simp)] at hwritten
    subst hwritten
    have hbase : ∀ imei i, stored w' imei i = stored w imei i := fun imei i => by
      rw [hfailed.stored, EngineInput.readings, List.filterMap_nil, told_nil, firstWins_nil]
    rw [if_neg (by simp)]
    cases freshness with
    | backfill =>
      refine iff_of_true (fun imei i => ?_) fun h => by cases h
      rw [hretried.stored, hbase, honce.stored]
      rfl
    | live =>
      rw [forall_prop_of_true rfl]
      refine forall₂_congr fun imei i => ?_
      rw [hretried.stored, hbase, honce.stored, hfailed.known]
      exact firstWins_shown_iff _ _ _

/-- A call fails, wherever it does, and the same process gets the batch again: when the table is as
behind one call without a failure. A call succeeds if the columns take the time stamps of the
batch. -/
theorem engine_retry_iff (newest : NewestFirst Id) {w : World Id} (hw : EngineReady w)
    (events : List TelemetryEvent) (hevents : ∀ event ∈ events, Decodable event)
    (freshness : Freshness) {label : Statement} {landed : Bool} {w' : World Id}
    (hfails : Session.Fails (engineHandler newest events freshness) w label landed w') :
    (∃ seen written, ∀ once retried,
      Session.Does (engineHandler newest events freshness) w () once →
      Session.Does (engineHandler newest events freshness) w' () retried →
      StopsAt w events label landed seen written ∧
      ((∀ imei, engineRowsOf retried imei = engineRowsOf once imei) ↔
        (freshness = .live → RetryCovers newest w events seen (insertLanded label landed)))) ∧
    ((∀ event ∈ events, Dated event) → ∃ once retried,
      Session.Does (engineHandler newest events freshness) w () once ∧
      Session.Does (engineHandler newest events freshness) w' () retried) := by
  obtain ⟨seen, written, hready, hfailed, hstops⟩ := fails_engineHandler newest hevents hw hfails
  refine ⟨⟨seen, written, fun once retried honce hretried => ?_⟩, fun hdates => ?_⟩
  · obtain ⟨-, hwatches⟩ := watches_of_does hevents hw honce
    obtain ⟨-, hwatches'⟩ := watches_of_does hevents hready hretried
    rw [engineRowsOf_eq_iff]
    exact ⟨hstops once honce, retry_stored_iff (hstops once honce) hfailed hwatches hwatches'⟩
  · obtain ⟨once, honce, -⟩ := does_engineHandler newest hevents hdates freshness hw
    obtain ⟨retried, hretried, -⟩ := does_engineHandler newest hevents hdates freshness hready
    exact ⟨once, retried, honce, hretried⟩

/-- The device has reported that its ignition is off. -/
def parked : World ℕ := behindCall emptyWorld [contact "01:00" false]

theorem engineReady_parked : EngineReady parked := by
  have hparked : Session.Does (engineHandler .stored [contact "01:00" false] .live) emptyWorld ()
      parked := rfl
  exact (watches_of_does (by simpa using decodable_contact false (by decide))
    engineReady_emptyWorld hparked).1

/-- The ignition is switched on. -/
def switchedOn : List TelemetryEvent := [contact "02:00" true]

theorem decodable_switchedOn : ∀ event ∈ switchedOn, Decodable event := by
  simpa [switchedOn] using decodable_contact true (by decide)

theorem dated_switchedOn : ∀ event ∈ switchedOn, Dated event := by decide

/-- The insert of the transition fails, and its state is remembered. -/
theorem fails_switchedOn : Session.Fails (engineHandler .stored switchedOn .live) parked
    .insertEngineEvents false (parked.remember 1 ⟨some true, none⟩) := ⟨0, rfl⟩

theorem engine_retry_parked : ∃ seen written once retried,
    StopsAt parked switchedOn .insertEngineEvents false seen written ∧
      Session.Does (engineHandler .stored switchedOn .live) parked () once ∧
      Session.Does (engineHandler .stored switchedOn .live)
        (parked.remember 1 ⟨some true, none⟩) () retried ∧
      ((∀ imei, engineRowsOf retried imei = engineRowsOf once imei) ↔
        (Freshness.live = .live → RetryCovers .stored parked switchedOn seen
          (insertLanded .insertEngineEvents false))) := by
  obtain ⟨⟨seen, written, hiff⟩, hcalls⟩ := engine_retry_iff .stored engineReady_parked switchedOn
    decodable_switchedOn .live fails_switchedOn
  obtain ⟨once, retried, honce, hretried⟩ := hcalls dated_switchedOn
  obtain ⟨hstops, hcovers⟩ := hiff once retried honce hretried
  exact ⟨seen, written, once, retried, hstops, honce, hretried, hcovers⟩

/-- The transition of a batch whose insert failed is not told again. -/
theorem retry_drops : ¬ ∀ (newest : NewestFirst ℕ) (w : World ℕ), EngineReady w →
    ∀ events : List TelemetryEvent, (∀ event ∈ events, Decodable event) →
      ∀ freshness label landed w' once retried,
        Session.Fails (engineHandler newest events freshness) w label landed w' →
        Session.Does (engineHandler newest events freshness) w () once →
        Session.Does (engineHandler newest events freshness) w' () retried →
          ∀ imei, engineRowsOf retried imei = engineRowsOf once imei := by
  intro hclaim
  obtain ⟨seen, written, hready, hfailed, hstops⟩ := fails_engineHandler .stored
    decodable_switchedOn engineReady_parked fails_switchedOn
  obtain ⟨once, honce, -⟩ := does_engineHandler .stored decodable_switchedOn dated_switchedOn .live
    engineReady_parked
  obtain ⟨retried, hretried, -⟩ := does_engineHandler .stored decodable_switchedOn dated_switchedOn
    .live hready
  obtain ⟨-, hwatches⟩ := watches_of_does decodable_switchedOn engineReady_parked honce
  obtain ⟨-, hwatches'⟩ := watches_of_does decodable_switchedOn hready hretried
  have hstops := hstops once honce
  have hsame := hclaim .stored parked engineReady_parked switchedOn decodable_switchedOn .live _ _ _
    once retried fails_switchedOn honce hretried
  have hcovers := (retry_stored_iff hstops hfailed hwatches hwatches').mp
    (engineRowsOf_eq_iff.mp hsame) rfl "356307042441013" .ignition
  obtain rfl : seen = switchedOn := by
    cases hstops with
    | inserting => rfl
    | registering hlabel => cases hlabel
  have hknown : known .stored parked "356307042441013" .ignition = some false := rfl
  have hreadings : EngineInput.ignition.readings "356307042441013" switchedOn =
      [⟨some 1704067320000, some 1704067320000, true, false⟩] := by decide
  rw [hreadings, hknown] at hcovers
  rcases hcovers _ rfl with hshows | hstored | hfound
  · cases hshows
  · cases hstored
  · cases hfound

/-! ## A restart -/

omit [FreshIds Id] in
/-- Of a device that is not registered nothing is told. -/
theorem Watches.told_eq_nil {newest : NewestFirst Id} {isLive : Bool}
    {seen written : List TelemetryEvent} {w w' : World Id}
    (h : Watches newest isLive seen written w w') {imei : String} (hv : vehicleOf w' imei = none)
    (i : EngineInput) :
    told isLive (Telemetry.known newest w imei i) (i.readings imei written) = [] := by
  rw [List.eq_nil_iff_forall_not_mem]
  intro r hr
  have hsome : (firstWins InputReading.key InputReading.receivedAt (Telemetry.stored w imei i)
      (told isLive (Telemetry.known newest w imei i) (i.readings imei written)) r.key).isSome =
      true := (isSome_firstWins _ _).mpr (.inr ⟨r, hr, rfl⟩)
  rw [← h.stored imei i, Telemetry.stored, hv] at hsome
  cases hsome

omit [FreshIds Id] in
/-- Two batches one after the other. -/
theorem Watches.trans {newest : NewestFirst Id} {isLive : Bool}
    {events events' : List TelemetryEvent} {w w₁ w₂ : World Id}
    (h : Watches newest isLive events events w w₁) (h' : Watches newest isLive events' events' w₁ w₂) :
    Watches newest isLive (events ++ events') (events ++ events') w w₂ where
  vehicles imei v hv := h'.vehicles imei v (h.vehicles imei v hv)
  known imei i := by rw [h'.known, h.known, EngineInput.readings_append, knownAfter_append]
  stored imei i := by
    rw [h'.stored, h.stored, h.known, EngineInput.readings_append, told_append, firstWins_append]
  table := by
    have hgrows : ∀ imei v, vehicleOf w₁ imei = some v → vehicleOf w₂ imei = some v := by
      intro imei v hv
      obtain ⟨row, hrow, rfl⟩ := Option.map_eq_some_iff.mp hv
      rw [vehicleOf, h'.vehicles imei row hrow, Option.map_some]
    obtain ⟨rows, htable, hrows, htold⟩ := h.table
    obtain ⟨rows', htable', hrows', htold'⟩ := h'.table
    refine ⟨rows ++ rows', by rw [htable', htable, List.foldl_append], ?_, fun imei v hv i => ?_⟩
    · intro r hr
      rcases List.mem_append.mp hr with hr | hr
      · obtain ⟨imei, himei⟩ := hrows r hr
        exact ⟨imei, hgrows imei _ himei⟩
      · exact hrows' r hr
    · rw [List.filter_append, htold' imei v hv i, EngineInput.readings_append, told_append,
        List.map_append, h.known]
      congr 1
      cases hv₁ : vehicleOf w₁ imei with
      | some v₁ =>
        obtain rfl := Option.some.inj ((hgrows imei v₁ hv₁).symm.trans hv)
        exact htold imei v₁ hv₁ i
      | none =>
        rw [h.told_eq_nil hv₁, List.map_nil, List.filter_eq_nil_iff]
        intro r hr habout
        obtain ⟨imei', himei'⟩ := hrows r hr
        have hvehicle : r.vehicleId = v := by
          rw [isAbout, Bool.and_eq_true, decide_eq_true_iff] at habout
          exact habout.1
        rw [hvehicle] at himei'
        obtain rfl := vehicleOf_inj hv (hgrows imei' v himei')
        rw [hv₁] at himei'
        cases himei'

/-- Live batches one after the other. -/
def liveRun (newest : NewestFirst Id) (batches : List (List TelemetryEvent)) : Handler Id Unit :=
  batches.forM fun events => engineHandler newest events .live

theorem watches_of_liveRun {newest : NewestFirst Id} {batches : List (List TelemetryEvent)}
    (hevents : ∀ events ∈ batches, ∀ event ∈ events, Decodable event) {w w' : World Id}
    (hw : EngineReady w) (hdoes : Session.Does (liveRun newest batches) w () w') :
    EngineReady w' ∧ Watches newest true batches.flatten batches.flatten w w' := by
  refine Session.Does.forM_invariant (J := fun done w' => EngineReady w' ∧
    Watches newest true done.flatten done.flatten w w') batches ?_
    ⟨hw, (Looked.refl newest true w).unwritten⟩ hdoes
  rintro done events rest rfl u u' ⟨hready, hwatches⟩ hcall
  obtain ⟨hready', hwatches'⟩ := watches_of_does (hevents events (by simp)) hready hcall
  rw [List.flatten_append, List.flatten_singleton]
  exact ⟨hready', hwatches.trans hwatches'⟩

theorem does_liveRun (newest : NewestFirst Id) {w : World Id} (hw : EngineReady w)
    (batches : List (List TelemetryEvent))
    (hevents : ∀ events ∈ batches, ∀ event ∈ events, Decodable event)
    (hdates : ∀ events ∈ batches, ∀ event ∈ events, Dated event) :
    ∃ w', Session.Does (liveRun newest batches) w () w' ∧ EngineReady w' := by
  refine Session.Does.forM_prefix (J := fun _ w' => EngineReady w') batches ?_ hw
  rintro done events rest rfl u hready
  exact does_engineHandler newest (hevents events (by simp)) (hdates events (by simp)) .live hready

theorem does_liveRun_append {newest : NewestFirst Id} {before after : List (List TelemetryEvent)}
    {w w' : World Id} : Session.Does (liveRun newest (before ++ after)) w () w' ↔
      ∃ u, Session.Does (liveRun newest before) w () u ∧
        Session.Does (liveRun newest after) u () w' := by
  unfold liveRun
  rw [List.forM_eq_forM, List.forM_append, Session.does_bind]
  constructor
  · rintro ⟨_, u, hbefore, hafter⟩
    exact ⟨u, hbefore, hafter⟩
  · rintro ⟨u, hbefore, hafter⟩
    exact ⟨(), u, hbefore, hafter⟩

/-- A process that starts behind the events `before` goes on with `after` as the old one does: for
each input of each device, what the newest stored transition says tells the first reading of `after`
as the last reading of `before` does, or this is immaterial. -/
def RestartUnnoticed (newest : NewestFirst Id) (w : World Id) (vehicles : String → Option Id)
    (before after : List TelemetryEvent) : Prop :=
  ∀ imei (i : EngineInput), ∀ first ∈ (i.readings imei after).head?,
    engineDetector.shows ((vehicles imei).bind (seedBehind newest w before imei i)) first =
        engineDetector.shows (engineDetector.after (known newest w imei i) (i.readings imei before))
          first ∨
      Immaterial (firstWins InputReading.key InputReading.receivedAt (stored w imei i)
          (engineDetector.shown (known newest w imei i) (i.readings imei before))) first
        (i.readings imei after).tail

omit [FreshIds Id] in
theorem restart_stored_iff {newest : NewestFirst Id} {before after : List TelemetryEvent}
    {w u once restarted : World Id} (hbefore : Watches newest true before before w u)
    (hafter : Watches newest true after after u once)
    (hrestarted : Watches newest true after after (World.start u.db) restarted) :
    (∀ imei i, stored restarted imei i = stored once imei i) ↔
      RestartUnnoticed newest w (vehicleOf u) before after := by
  have hsame : ∀ imei i, stored (World.start u.db) imei i = stored u imei i := fun _ _ => rfl
  refine forall₂_congr fun imei i => ?_
  rw [hrestarted.stored, hsame, hafter.stored, known_start hbefore, hbefore.known, hbefore.stored]
  exact firstWins_shown_iff _ _ _

/-- Behind the batches `before` the old process and a new one handle the others. -/
theorem restart_rows_iff {newest : NewestFirst Id} {before after : List (List TelemetryEvent)}
    (hbefore : ∀ events ∈ before, ∀ event ∈ events, Decodable event)
    (hafter : ∀ events ∈ after, ∀ event ∈ events, Decodable event) {w u once restarted : World Id}
    (hw : EngineReady w) (hdoes : Session.Does (liveRun newest before) w () u)
    (honce : Session.Does (liveRun newest after) u () once)
    (hrestarted : Session.Does (liveRun newest after) (World.start u.db) () restarted) :
    (∀ imei, engineRowsOf restarted imei = engineRowsOf once imei) ↔
      RestartUnnoticed newest w (vehicleOf u) before.flatten after.flatten := by
  obtain ⟨hready, hwatches⟩ := watches_of_liveRun hbefore hw hdoes
  obtain ⟨-, hwatches'⟩ := watches_of_liveRun hafter hready honce
  obtain ⟨-, hwatches''⟩ := watches_of_liveRun hafter (.start hready.rows) hrestarted
  rw [engineRowsOf_eq_iff]
  exact restart_stored_iff hwatches hwatches' hwatches''

/-- Live batches are handled by one process, or by one and then, from some batch on, by a new one:
when both leave the same rows. The calls succeed if the columns take the time stamps. -/
theorem engine_restart_iff (newest : NewestFirst Id) {w : World Id} (hw : EngineReady w)
    (before after : List (List TelemetryEvent))
    (hevents : ∀ events ∈ before ++ after, ∀ event ∈ events, Decodable event) :
    (∀ u once restarted, Session.Does (liveRun newest before) w () u →
      Session.Does (liveRun newest (before ++ after)) w () once →
      Session.Does (liveRun newest after) (World.start u.db) () restarted →
      ((∀ imei, engineRowsOf restarted imei = engineRowsOf once imei) ↔
        RestartUnnoticed newest w (vehicleOf u) before.flatten after.flatten)) ∧
    ((∀ events ∈ before ++ after, ∀ event ∈ events, Dated event) → ∃ u once restarted,
      Session.Does (liveRun newest before) w () u ∧
      Session.Does (liveRun newest (before ++ after)) w () once ∧
      Session.Does (liveRun newest after) (World.start u.db) () restarted) := by
  obtain ⟨hbefore, hafter⟩ := List.forall_mem_append.mp hevents
  constructor
  · intro u once restarted hdoes honce hrestarted
    obtain ⟨u', hdoes', hrest⟩ := does_liveRun_append.mp honce
    obtain ⟨-, rfl⟩ := hdoes.unique hdoes'
    exact restart_rows_iff hbefore hafter hw hdoes hrest hrestarted
  · intro hdates
    obtain ⟨hdated, hdated'⟩ := List.forall_mem_append.mp hdates
    obtain ⟨u, hdoes, hready⟩ := does_liveRun newest hw before hbefore hdated
    obtain ⟨once, honce, -⟩ := does_liveRun newest hready after hafter hdated'
    obtain ⟨restarted, hrestarted, -⟩ :=
      does_liveRun newest (.start hready.rows) after hafter hdated'
    exact ⟨u, once, restarted, hdoes, does_liveRun_append.mpr ⟨u, hdoes, honce⟩, hrestarted⟩

theorem dated_off_on : ∀ events ∈ [[contact "01:00" false]] ++ [switchedOn], ∀ event ∈ events,
    Dated event := by decide

theorem decodable_off_on : ∀ events ∈ [[contact "01:00" false]] ++ [switchedOn],
    ∀ event ∈ events, Decodable event := by
  simp only [List.singleton_append, List.forall_mem_cons, List.not_mem_nil, false_imp_iff,
    implies_true, and_true]
  exact ⟨decodable_contact false (by decide), decodable_switchedOn⟩

theorem engine_restart_contact : ∃ u once restarted,
    Session.Does (liveRun .stored [[contact "01:00" false]]) emptyWorld () u ∧
      Session.Does (liveRun .stored ([[contact "01:00" false]] ++ [switchedOn])) emptyWorld () once ∧
      Session.Does (liveRun .stored [switchedOn]) (World.start u.db) () restarted ∧
      ((∀ imei, engineRowsOf restarted imei = engineRowsOf once imei) ↔
        RestartUnnoticed .stored emptyWorld (vehicleOf u) [[contact "01:00" false]].flatten
          [switchedOn].flatten) := by
  obtain ⟨hiff, hcalls⟩ := engine_restart_iff .stored engineReady_emptyWorld
    [[contact "01:00" false]] [switchedOn] decodable_off_on
  obtain ⟨u, once, restarted, hdoes, honce, hrestarted⟩ := hcalls dated_off_on
  exact ⟨u, once, restarted, hdoes, honce, hrestarted, hiff u once restarted hdoes honce hrestarted⟩

/-- The ignition is switched on while the process restarts, and nobody notices. -/
theorem restart_drops : ¬ ∀ (newest : NewestFirst ℕ) (w : World ℕ), EngineReady w →
    ∀ before after : List (List TelemetryEvent),
      (∀ events ∈ before ++ after, ∀ event ∈ events, Decodable event) →
      ∀ u once restarted, Session.Does (liveRun newest before) w () u →
        Session.Does (liveRun newest (before ++ after)) w () once →
        Session.Does (liveRun newest after) (World.start u.db) () restarted →
          ∀ imei, engineRowsOf restarted imei = engineRowsOf once imei := by
  intro hclaim
  obtain ⟨hbefore, hafter⟩ := List.forall_mem_append.mp decodable_off_on
  obtain ⟨hdated, hdated'⟩ := List.forall_mem_append.mp dated_off_on
  obtain ⟨u, hdoes, hready⟩ := does_liveRun .stored engineReady_emptyWorld _ hbefore hdated
  obtain ⟨once, honce, -⟩ := does_liveRun .stored hready _ hafter hdated'
  obtain ⟨restarted, hrestarted, -⟩ := does_liveRun .stored (.start hready.rows) _ hafter hdated'
  have hsame := hclaim .stored emptyWorld engineReady_emptyWorld _ _ decodable_off_on u once restarted
    hdoes (does_liveRun_append.mpr ⟨u, hdoes, honce⟩) hrestarted
  have hunnoticed := (restart_rows_iff hbefore hafter engineReady_emptyWorld hdoes honce
    hrestarted).mp hsame "356307042441013" .ignition
  have hreadings : EngineInput.ignition.readings "356307042441013" [switchedOn].flatten =
      [⟨some 1704067320000, some 1704067320000, true, false⟩] := by decide
  have hfirst : EngineInput.ignition.readings "356307042441013"
      [[contact "01:00" false]].flatten =
        [⟨some 1704067260000, some 1704067260000, false, false⟩] := by decide
  have hu : vehicleOf u "356307042441013" = some 1 := by
    have hconcrete : Session.Does (liveRun .stored [[contact "01:00" false]]) emptyWorld ()
        parked := rfl
    rw [(hconcrete.unique hdoes).2]
    rfl
  have hseed : seedBehind .stored emptyWorld [[contact "01:00" false]].flatten "356307042441013"
      .ignition 1 = none := by
    rw [seedBehind, rowsBehind, hfirst]
    rfl
  rw [hreadings, hfirst, hu, Option.bind_some, hseed] at hunnoticed
  rcases hunnoticed _ rfl with hshows | hstored | hfound
  · cases hshows
  · cases hstored
  · cases hfound

end BankPlatform.Telemetry
