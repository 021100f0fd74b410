import BankPlatform.Library.Interleaving
import BankPlatform.Telemetry.AlertRuns
import BankPlatform.Telemetry.Sharing
import BankPlatform.Telemetry.Storable

/-!
# Writers converge

`apps/telemetry-consumers/src/consumers/index.ts` runs the writers as consumers of the live and of
the backfill topic, each in a group of its own; the consumers of one process share its vehicle
registry. Batches come at least once, and consumers go on in any order, statement by statement.

## Main definitions

* `writers` — the consumers over the shared database.
* `admits` — batches are parts of the partitions, and nobody else touches positions and fuel levels.

## Main results

* `deliver_resolves` — a batch can always be delivered to an idle consumer, and its call resolved.
* `writers_converge` — what is stored in the end depends on the messages only.
-/

namespace BankPlatform.Telemetry

open Library Teltonika

variable {Id Pid Process : Type}

/-- A partition of the live or the backfill topic. -/
structure Partition where
  freshness : Freshness
  number : ℕ
  deriving DecidableEq, Repr

inductive Writer where
  | locations
  | fuel
  deriving DecidableEq, Repr

/-- What a process remembers. -/
structure Memory (Id : Type) where
  registry : JsMap String Id
  engineStates : JsMap Id VehicleState
  geofenceCache : Option (List Geofence × ℤ)

/-- The memory of a process that has just started. -/
def Memory.start : Memory Id := ⟨Table.empty, Table.empty, none⟩

/-- The database, the memory of each process, and the calls that have resolved. -/
structure Platform (Process Id : Type) where
  db : TelemetryDb Id
  memory : Process → Memory Id
  resolved : List (Writer × List TelemetryEvent)

/-- A call of a handler, and what it has still to do. -/
structure WriterCall (Id : Type) where
  events : List TelemetryEvent
  rest : Handler Id Unit

namespace Platform

/-- The platform as one process sees it. -/
def world (s : Platform Process Id) (m : Process) : World Id :=
  ⟨s.db, (s.memory m).registry, (s.memory m).engineStates, (s.memory m).geofenceCache⟩

variable [DecidableEq Process]

/-- The platform behind a step of one process. -/
def set (s : Platform Process Id) (m : Process) (w : World Id) : Platform Process Id :=
  { s with
    db := w.db
    memory := Function.update s.memory m ⟨w.registry, w.engineStates, w.geofenceCache⟩ }

@[simp] theorem world_set (s : Platform Process Id) (m : Process) (w : World Id) :
    (s.set m w).world m = w := by
  simp [set, world]

theorem world_set_of_ne (s : Platform Process Id) {m m' : Process} (h : m' ≠ m) (w : World Id) :
    (s.set m w).world m' = { s.world m' with db := w.db } := by
  simp [set, world, h]

end Platform

variable [DecidableEq Id] [DecidableEq Process]

namespace Writer

def handler [FreshIds Id] : Writer → List TelemetryEvent → Handler Id Unit
  | locations => locationsHandler
  | fuel => fuelHandler

/-- What a call of the writer does in one step. -/
def Acts (events : List TelemetryEvent) (w w' : World Id) : Writer → Prop
  | locations => locationsWriter.Acts events w w'
  | fuel => fuelWriter.Acts events w w'

/-- All rows of a batch are there. -/
def Stored (events : List TelemetryEvent) (db : TelemetryDb Id) : Writer → Prop
  | locations => locationsWriter.Stored events db
  | fuel => fuelWriter.Stored events db

/-- The table takes the rows of an event. -/
def Fits (event : TelemetryEvent) : Writer → Prop
  | locations => ∀ gps ∈ event.gps, InOrder (locationColumns event gps)
  | fuel => ∀ reading ∈ event.fuel, InOrder (fuelColumns event reading)

end Writer

/-! ## The system -/

inductive WriterLabel (Id : Type) where
  | deliver (events : List TelemetryEvent)
  /-- A call goes on up to its next statement, or ends. -/
  | proceed
  /-- A statement fails, and the call with it. -/
  | fail (landed : Bool)
  /-- The process starts anew, which each of its consumers notices. -/
  | restart
  /-- Other parts of the process and other users of the database go on. -/
  | elsewhere (w : World Id)

variable (host : Pid → Process) (writer : Pid → Writer)

def writerStep [FreshIds Id] (s : Platform Process Id) (i : Pid) (call : Option (WriterCall Id)) :
    WriterLabel Id → Option (Platform Process Id × Option (WriterCall Id))
  | .deliver events =>
    match call with
    | none => some (s, some ⟨events, (writer i).handler events⟩)
    | some _ => none
  | .proceed =>
    match call with
    | none => none
    | some ⟨events, .pure _⟩ =>
      some ({ s with resolved := s.resolved ++ [(writer i, events)] }, none)
    | some ⟨_, .throw _⟩ => some (s, none)
    | some ⟨events, .memory effect next⟩ =>
      some (s.set (host i) (effect (s.world (host i))), some ⟨events, next (s.world (host i))⟩)
    | some ⟨events, .statement _ effect next⟩ =>
      some (s.set (host i) (effect (s.world (host i))), some ⟨events, next (s.world (host i))⟩)
  | .fail landed =>
    match call with
    | some ⟨_, .statement _ effect _⟩ =>
      some (if landed then s.set (host i) (effect (s.world (host i))) else s, none)
    | _ => none
  | .restart => some ({ s with memory := Function.update s.memory (host i) .start }, none)
  | .elsewhere w => some (s.set (host i) w, call)

/-- The consumers; a writer may have several, also in other processes. -/
def writers [FreshIds Id] :
    Interleaving Pid (Platform Process Id) (Option (WriterCall Id)) (WriterLabel Id) :=
  ⟨writerStep host writer⟩

/-- Messages are delivered in the order of their partitions, in any batches, again and again. Others
may register vehicles, but leave positions and fuel levels to the writers. -/
def admits (log : Partition → List TelemetryEvent) :
    Interleaving.Guard Pid (Platform Process Id) (Option (WriterCall Id)) (WriterLabel Id) :=
  fun c i a =>
    match a with
    | .deliver events => ∃ p, events <:+: log p
    | .elsewhere w => Quiet (c.shared.world (host i)) w
    | _ => True

/-- The rows of an event can be stored. -/
structure StorableEvent (event : TelemetryEvent) : Prop where
  imei : imeiDigits event.imei = true
  gps : ∀ gps ∈ event.gps, InOrder (locationColumns event gps)
  fuel : ∀ reading ∈ event.fuel, InOrder (fuelColumns event reading)

/-- Before the first message. -/
structure Started (c : Config Pid (Platform Process Id) (Option (WriterCall Id))) : Prop where
  vehicleLocations : c.shared.db.vehicleLocations = Table.empty
  vehicleFuelReadings : c.shared.db.vehicleFuelReadings = Table.empty
  agrees : ∀ m, RegistryAgrees (c.shared.world m)
  resolved : c.shared.resolved = []
  idle : ∀ i, c.locals i = none

/-! ## A step -/

omit [DecidableEq Process] in
theorem Meanwhile.elsewhere {w w' : World Id} (h : Meanwhile w w') (u : World Id)
    (hagrees : RegistryAgrees { u with db := w.db } → RegistryAgrees { u with db := w'.db }) :
    Meanwhile { u with db := w.db } { u with db := w'.db } :=
  ⟨hagrees, h.vehicles, h.vehicleLocations, h.vehicleFuelReadings⟩

/-- The caches of the other processes agree with the table as before. -/
theorem Platform.meanwhile_set {s : Platform Process Id} {m : Process} {w : World Id}
    (h : Meanwhile (s.world m) w) (m' : Process) :
    Meanwhile (s.world m') ((s.set m w).world m') := by
  by_cases hm : m' = m
  · subst hm
    rwa [Platform.world_set]
  · rw [Platform.world_set_of_ne s hm]
    exact h.elsewhere (s.world m') fun hagrees e he => h.vehicles _ _ (hagrees e he)

namespace Writer

variable {events : List TelemetryEvent} {w w' : World Id}

theorem Acts.meanwhile {writer : Writer} (h : writer.Acts events w w') : Meanwhile w w' := by
  cases writer with
  | locations => exact TableWriter.Acts.meanwhile h
  | fuel => exact TableWriter.Acts.meanwhile h

theorem Acts.of_quiet {writer : Writer} (h : Quiet w w') : writer.Acts events w w' := by
  cases writer with
  | locations => exact .inl h
  | fuel => exact .inl h

theorem Stored.meanwhile {writer : Writer} (h : writer.Stored events w.db) (hw : Meanwhile w w') :
    writer.Stored events w'.db := by
  cases writer with
  | locations => exact TableWriter.Stored.meanwhile h hw
  | fuel => exact TableWriter.Stored.meanwhile h hw

end Writer

/-- A call stores its whole batch in its own table, or nothing. -/
theorem Writer.Acts.storesBatch {events : List TelemetryEvent} {w w' : World Id} {writer : Writer}
    (h : writer.Acts events w w') :
    (w'.db.vehicleLocations = w.db.vehicleLocations ∨
        writer = .locations ∧ locationsWriter.StoresBatch events w.db w'.db) ∧
      (w'.db.vehicleFuelReadings = w.db.vehicleFuelReadings ∨
        writer = .fuel ∧ fuelWriter.StoresBatch events w.db w'.db) := by
  cases writer with
  | locations =>
    refine ⟨(TableWriter.Acts.storesBatch h).imp_right fun hbatch => ⟨rfl, hbatch⟩, .inl ?_⟩
    rcases h with hquiet | ⟨rfl, _⟩
    · exact hquiet.vehicleFuelReadings
    · rfl
  | fuel =>
    refine ⟨.inl ?_, (TableWriter.Acts.storesBatch h).imp_right fun hbatch => ⟨rfl, hbatch⟩⟩
    rcases h with hquiet | ⟨rfl, _⟩
    · exact hquiet.vehicleLocations
    · rfl

/-- What is derived stays so, whatever a call of a writer does. -/
theorem Writer.Acts.derived {P : TelemetryEvent → Prop} {events : List TelemetryEvent}
    {w w' : World Id} {writer : Writer} (h : writer.Acts events w w')
    (hP : ∀ event ∈ events, P event) :
    (locationsWriter.Derived P w.db → locationsWriter.Derived P w'.db) ∧
      (fuelWriter.Derived P w.db → fuelWriter.Derived P w'.db) := by
  obtain ⟨hlocations, hfuel⟩ := h.storesBatch
  constructor
  · intro hderived
    rcases hlocations with hsame | ⟨_, hbatch, _⟩
    · exact hderived.of_table h.meanwhile hsame
    · exact hderived.insertAll hP h.meanwhile hbatch
  · intro hderived
    rcases hfuel with hsame | ⟨_, hbatch, _⟩
    · exact hderived.of_table h.meanwhile hsame
    · exact hderived.insertAll hP h.meanwhile hbatch

/-- Every device can be registered, and only the tables of some writers may refuse a row. -/
structure Acceptable (refusable : Writer → Prop) (log : Partition → List TelemetryEvent) : Prop where
  imei : ∀ p, ∀ event ∈ log p, imeiDigits event.imei = true
  fits : ∀ writer, refusable writer ∨ ∀ p, ∀ event ∈ log p, writer.Fits event

theorem Acceptable.of_storable {log : Partition → List TelemetryEvent}
    (h : ∀ p, ∀ event ∈ log p, StorableEvent event) : Acceptable (fun _ => False) log where
  imei p event hevent := (h p event hevent).imei
  fits writer := .inr fun p event hevent => by
    cases writer with
    | locations => exact (h p event hevent).gps
    | fuel => exact (h p event hevent).fuel

theorem Writer.Fits.locations {event : TelemetryEvent} (h : Writer.locations.Fits event) :
    (locationsWriter : TableWriter Id _).Fits event := by
  intro id r hr
  obtain ⟨gps, hgps, rfl⟩ := Option.map_eq_some_iff.mp (Option.mem_toList.mp hr)
  exact h gps hgps

theorem Writer.Fits.fuelLevels {event : TelemetryEvent} (h : Writer.fuel.Fits event) :
    (fuelWriter : TableWriter Id _).Fits event := by
  intro id r hr
  obtain ⟨reading, hreading, rfl⟩ := List.mem_map.mp hr
  exact h reading hreading

theorem Writer.guards_handler [FreshIds Id] (writer : Writer) {refusable : Writer → Prop}
    {log : Partition → List TelemetryEvent} (hlog : Acceptable refusable log) {p : Partition}
    {events : List TelemetryEvent} (h : events <:+: log p) {w : World Id} (hw : RegistryAgrees w) :
    Session.Guards Meanwhile (fun w w' => writer.Acts events w w')
      (Session.Ends (fun _ t => writer.Stored events t.db) fun _ _ => refusable writer)
      (writer.handler events).attempt w := by
  have himeis : ∀ event ∈ events, imeiDigits event.imei = true := fun event hevent =>
    hlog.imei p event (h.subset hevent)
  have hfits : refusable writer ∨ ∀ event ∈ events, writer.Fits event :=
    (hlog.fits writer).imp_right fun hfits event hevent => hfits p event (h.subset hevent)
  cases writer with
  | locations =>
    exact TableWriter.guards_handler himeis
      (hfits.imp_right fun hfits event hevent => (hfits event hevent).locations) hw
  | fuel =>
    exact TableWriter.guards_handler himeis
      (hfits.imp_right fun hfits event hevent => (hfits event hevent).fuelLevels) hw

/-- What is known of a call in progress: its batch is part of the log, and it will store all of it
or fail, which it does by itself only where its table may refuse a row. -/
structure InProgress (refusable : Writer → Prop) (log : Partition → List TelemetryEvent)
    (writer : Writer) (w : World Id) (call : WriterCall Id) : Prop where
  logged : ∃ p, call.events <:+: log p
  guards : Session.Guards Meanwhile (fun w w' => writer.Acts call.events w w')
    (Session.Ends (fun _ t => writer.Stored call.events t.db) fun _ _ => refusable writer)
    call.rest.attempt w

theorem InProgress.meanwhile {refusable : Writer → Prop} {log : Partition → List TelemetryEvent}
    {writer : Writer} {w w' : World Id} {call : WriterCall Id}
    (h : InProgress refusable log writer w call) (hw : Meanwhile w w') :
    InProgress refusable log writer w' call := by
  refine ⟨h.logged, h.guards.stable Meanwhile.trans (fun r s t hr hst => ?_) hw⟩
  cases r with
  | ok a => exact Writer.Stored.meanwhile hr hst
  | error err => exact hr

variable {host writer} {refusable : Writer → Prop} {log : Partition → List TelemetryEvent}

/-- What a step of a consumer does. -/
structure StepOf (host : Pid → Process) (writer : Pid → Writer) (refusable : Writer → Prop)
    (log : Partition → List TelemetryEvent) (s : Platform Process Id) (i : Pid)
    (call : Option (WriterCall Id)) (s' : Platform Process Id) (call' : Option (WriterCall Id)) :
    Prop where
  meanwhile : ∀ m, Meanwhile (s.world m) (s'.world m)
  acts : Quiet (s.world (host i)) (s'.world (host i)) ∨ ∃ c, call = some c ∧
    (writer i).Acts c.events (s.world (host i)) (s'.world (host i))
  resolved : s'.resolved = s.resolved ∨ ∃ c, call = some c ∧
    s'.resolved = s.resolved ++ [(writer i, c.events)] ∧ (writer i).Stored c.events s'.db
  inProgress : ∀ c, call' = some c → InProgress refusable log (writer i) (s'.world (host i)) c

/-- A step of a call that is not its last. -/
theorem stepOf_acts {s : Platform Process Id} {i : Pid} {call : WriterCall Id}
    {w : World Id} (hw : (writer i).Acts call.events (s.world (host i)) w)
    {call' : Option (WriterCall Id)}
    (hcall' : ∀ c, call' = some c → InProgress refusable log (writer i) w c) :
    StepOf host writer refusable log s i (some call) (s.set (host i) w) call' where
  meanwhile := Platform.meanwhile_set hw.meanwhile
  acts := .inr ⟨_, rfl, by rwa [Platform.world_set]⟩
  resolved := .inl rfl
  inProgress c hc := by
    rw [Platform.world_set]
    exact hcall' c hc

omit [DecidableEq Process] in
/-- Nothing happens but that a call is dropped, or a new one begins. -/
theorem stepOf_refl {s : Platform Process Id} {i : Pid} {call call' : Option (WriterCall Id)}
    (hcall' : ∀ c, call' = some c → InProgress refusable log (writer i) (s.world (host i)) c) :
    StepOf host writer refusable log s i call s call' :=
  ⟨fun _ => .refl _, .inl (.refl _), .inl rfl, hcall'⟩

/-- Others go on, or the process starts anew. -/
theorem stepOf_quiet {s : Platform Process Id} {i : Pid} {call call' : Option (WriterCall Id)}
    {w : World Id} (hw : Quiet (s.world (host i)) w)
    (hcall' : ∀ c, call' = some c → InProgress refusable log (writer i) (s.world (host i)) c) :
    StepOf host writer refusable log s i call (s.set (host i) w) call' where
  meanwhile := Platform.meanwhile_set hw.meanwhile
  acts := .inl (by rwa [Platform.world_set])
  resolved := .inl rfl
  inProgress c hc := by
    rw [Platform.world_set]
    exact (hcall' c hc).meanwhile hw.meanwhile

theorem writerStep_spec [FreshIds Id] (hlog : Acceptable refusable log)
    {c : Config Pid (Platform Process Id) (Option (WriterCall Id))} {i : Pid}
    (hagrees : RegistryAgrees (c.shared.world (host i)))
    (h : ∀ call, c.locals i = some call →
      InProgress refusable log (writer i) (c.shared.world (host i)) call)
    {a : WriterLabel Id} (hadmits : admits host log c i a) {s' : Platform Process Id}
    {call' : Option (WriterCall Id)}
    (hstep : writerStep host writer c.shared i (c.locals i) a = some (s', call')) :
    StepOf host writer refusable log c.shared i (c.locals i) s' call' := by
  cases a with
  | deliver events =>
    obtain ⟨p, hp⟩ := hadmits
    cases hcall : c.locals i with
    | some call =>
      rw [hcall] at hstep
      cases hstep
    | none =>
      rw [hcall] at hstep
      cases hstep
      refine stepOf_refl fun call heq => ?_
      cases heq
      exact ⟨⟨p, hp⟩, (writer i).guards_handler hlog hp hagrees⟩
  | proceed =>
    cases hcall : c.locals i with
    | none =>
      rw [hcall] at hstep
      cases hstep
    | some call =>
      have hguards := (h call hcall).guards
      obtain ⟨events, rest⟩ := call
      rw [hcall] at hstep
      cases rest with
      | pure a =>
        cases hstep
        refine ⟨fun _ => .refl _, .inl (.refl _), .inr ⟨_, rfl, rfl, hguards⟩, ?_⟩
        intro _ heq
        cases heq
      | throw e =>
        cases hstep
        refine stepOf_refl fun _ heq => ?_
        cases heq
      | memory effect next =>
        cases hstep
        obtain ⟨hacts, hnext⟩ := hguards _ (.refl _)
        refine stepOf_acts hacts fun _ heq => ?_
        cases heq
        exact ⟨(h _ hcall).logged, hnext⟩
      | statement label effect next =>
        cases hstep
        obtain ⟨hacts, hnext⟩ := hguards _ (.refl _)
        refine stepOf_acts hacts fun _ heq => ?_
        cases heq
        exact ⟨(h _ hcall).logged, hnext⟩
  | fail landed =>
    cases hcall : c.locals i with
    | none =>
      rw [hcall] at hstep
      cases hstep
    | some call =>
      have hguards := (h call hcall).guards
      obtain ⟨events, rest⟩ := call
      rw [hcall] at hstep
      cases rest with
      | statement label effect next =>
        cases landed with
        | false =>
          cases hstep
          refine stepOf_refl fun _ heq => ?_
          cases heq
        | true =>
          cases hstep
          refine stepOf_acts (hguards _ (.refl _)).1 fun _ heq => ?_
          cases heq
      | _ => cases hstep
  | restart =>
    cases hstep
    have hquiet : Quiet (c.shared.world (host i)) (World.start c.shared.db) :=
      ⟨fun _ => .start _, fun _ _ => id, rfl, rfl⟩
    refine stepOf_quiet hquiet fun _ heq => ?_
    cases heq
  | elsewhere w =>
    cases hstep
    exact stepOf_quiet hadmits h

/-! ## Runs -/

/-- A message of the log. -/
def Logged (log : Partition → List TelemetryEvent) (event : TelemetryEvent) : Prop :=
  ∃ p, event ∈ log p

/-- What holds between any two steps. -/
structure Consistent (log : Partition → List TelemetryEvent) (s : Platform Process Id) : Prop where
  agrees : ∀ m, RegistryAgrees (s.world m)
  vehicleLocations : locationsWriter.Derived (Logged log) s.db
  vehicleFuelReadings : fuelWriter.Derived (Logged log) s.db
  resolved : ∀ call ∈ s.resolved, call.1.Stored call.2 s.db

omit [DecidableEq Process] in
/-- A step keeps what is consistent. -/
theorem StepOf.consistent {s s' : Platform Process Id} {i : Pid} {call call' : Option (WriterCall Id)}
    (h : StepOf host writer refusable log s i call s' call') (hs : Consistent log s)
    (hcall : ∀ c, call = some c → InProgress refusable log (writer i) (s.world (host i)) c) :
    Consistent log s' := by
  have hderived : (locationsWriter.Derived (Logged log) s.db →
        locationsWriter.Derived (Logged log) s'.db) ∧
      (fuelWriter.Derived (Logged log) s.db → fuelWriter.Derived (Logged log) s'.db) := by
    rcases h.acts with hquiet | ⟨c, rfl, hacts⟩
    · have hacts : (writer i).Acts [] (s.world (host i)) (s'.world (host i)) := .of_quiet hquiet
      exact hacts.derived fun event hevent => by cases hevent
    · obtain ⟨p, hp⟩ := (hcall c rfl).logged
      exact hacts.derived fun event hevent => ⟨p, hp.subset hevent⟩
  refine ⟨fun m => (h.meanwhile m).agrees (hs.agrees m), hderived.1 hs.vehicleLocations,
    hderived.2 hs.vehicleFuelReadings, fun done hdone => ?_⟩
  have hold : ∀ done ∈ s.resolved, done.1.Stored done.2 s'.db := fun done hdone =>
    Writer.Stored.meanwhile (hs.resolved done hdone) (h.meanwhile (host i))
  rcases h.resolved with hsame | ⟨c, _, hnew, hstored⟩
  · exact hold done (hsame ▸ hdone)
  · rw [hnew] at hdone
    rcases List.mem_append.mp hdone with hdone | hdone
    · exact hold done hdone
    · obtain rfl := List.mem_singleton.mp hdone
      exact hstored

variable [DecidableEq Pid] [FreshIds Id]

/-- Every call in progress keeps its promise, whatever the others do. -/
def sharing (host : Pid → Process) (writer : Pid → Writer) (hlog : Acceptable refusable log) :
    Interleaving.RelyGuarantee (writers host writer) (admits host log)
      fun _ : Config Pid (Platform Process Id) (Option (WriterCall Id)) => True where
  inv := Consistent log
  asserts i s call := ∀ c, call = some c → InProgress refusable log (writer i) (s.world (host i)) c
  guarantee _ s s' := ∀ m, Meanwhile (s.world m) (s'.world m)
  own c i a s call _ hs hcalls hadmits hstep := by
    have h := writerStep_spec hlog (hs.agrees _) (hcalls i) hadmits hstep
    exact ⟨h.consistent hs (hcalls i), h.inProgress, h.meanwhile⟩
  stable i j s s' call _ _ hmeanwhile hcall c hc := (hcall c hc).meanwhile (hmeanwhile (host i))

theorem Started.sound (hlog : Acceptable refusable log)
    {c₀ c : Config Pid (Platform Process Id) (Option (WriterCall Id))} (h₀ : Started c₀)
    (h : (writers host writer).Run (admits host log) c₀ c) :
    Consistent log c.shared ∧ ∀ i call, c.locals i = some call →
      InProgress refusable log (writer i) (c.shared.world (host i)) call := by
  refine (sharing host writer hlog).sound h (fun _ _ => trivial)
    ⟨h₀.agrees, fun r hr => ?_, fun r hr => ?_, fun call hcall => ?_⟩ fun j call hcall => ?_
  · change r ∈ c₀.shared.db.vehicleLocations.rows at hr
    rw [h₀.vehicleLocations] at hr
    cases hr
  · change r ∈ c₀.shared.db.vehicleFuelReadings.rows at hr
    rw [h₀.vehicleFuelReadings] at hr
    cases hr
  · rw [h₀.resolved] at hcall
    cases hcall
  · rw [h₀.idle j] at hcall
    cases hcall

variable (host writer log) in
theorem run_writerStep {c : Config Pid (Platform Process Id) (Option (WriterCall Id))} {i : Pid}
    {a : WriterLabel Id} (hadmits : admits host log c i a) {s : Platform Process Id}
    {call : Option (WriterCall Id)}
    (hstep : writerStep host writer c.shared i (c.locals i) a = some (s, call)) :
    (writers host writer).Run (admits host log) c ⟨s, Function.update c.locals i call⟩ :=
  .step .refl hadmits (Interleaving.move_eq_some.mpr ⟨_, _, hstep, rfl⟩)

/-- A call goes on to its end, if no statement fails. -/
theorem Started.resolves (hlog : Acceptable refusable log)
    {c₀ : Config Pid (Platform Process Id) (Option (WriterCall Id))} (h₀ : Started c₀) {i : Pid}
    (hfits : ¬ refusable (writer i))
    {events : List TelemetryEvent} (rest : Handler Id Unit)
    {c : Config Pid (Platform Process Id) (Option (WriterCall Id))}
    (h : (writers host writer).Run (admits host log) c₀ c)
    (hcall : c.locals i = some ⟨events, rest⟩) :
    ∃ c', (writers host writer).Run (admits host log) c c' ∧
      c'.locals = Function.update c.locals i none ∧
      c'.shared.resolved = c.shared.resolved ++ [(writer i, events)] := by
  induction rest generalizing c with
  | pure a =>
    have hrun := run_writerStep host writer log (a := .proceed) trivial (by rw [hcall]; rfl)
    exact ⟨_, hrun, rfl, rfl⟩
  | throw e => exact (hfits ((h₀.sound hlog h).2 i _ hcall).guards).elim
  | memory effect next ih =>
    have hrun := run_writerStep host writer log (a := .proceed) trivial (by rw [hcall]; rfl)
    obtain ⟨c', hrun', hlocals, hresolved⟩ := ih _ (h.trans hrun) (Function.update_self ..)
    exact ⟨c', hrun.trans hrun', by rw [hlocals, Function.update_idem], hresolved⟩
  | statement label effect next ih =>
    have hrun := run_writerStep host writer log (a := .proceed) trivial (by rw [hcall]; rfl)
    obtain ⟨c', hrun', hlocals, hresolved⟩ := ih _ (h.trans hrun) (Function.update_self ..)
    exact ⟨c', hrun.trans hrun', by rw [hlocals, Function.update_idem], hresolved⟩

/-- A batch can be delivered to an idle consumer, and its call resolves if nothing fails. -/
theorem deliver_resolves (hlog : Acceptable refusable log)
    {c₀ c : Config Pid (Platform Process Id) (Option (WriterCall Id))} (h₀ : Started c₀)
    (h : (writers host writer).Run (admits host log) c₀ c) {i : Pid} (hidle : c.locals i = none)
    (hfits : ¬ refusable (writer i)) {events : List TelemetryEvent} {p : Partition}
    (hevents : events <:+: log p) :
    ∃ c', (writers host writer).Run (admits host log) c c' ∧ c'.locals = c.locals ∧
      c'.shared.resolved = c.shared.resolved ++ [(writer i, events)] := by
  have hrun := run_writerStep host writer log (c := c) (i := i) (a := .deliver events) ⟨p, hevents⟩
    (by rw [hidle]; rfl)
  obtain ⟨c', hrun', hlocals, hresolved⟩ := h₀.resolves hlog hfits ((writer i).handler events)
    (h.trans hrun) (Function.update_self ..)
  refine ⟨c', hrun.trans hrun', ?_, hresolved⟩
  rw [hlocals, Function.update_idem, ← hidle, Function.update_eq_self]

/-- Every message of the log is in a call of the writer that has resolved. -/
def AllHandled (log : Partition → List TelemetryEvent) (s : Platform Process Id)
    (writer : Writer) : Prop :=
  ∀ event, Logged log event → ∃ call ∈ s.resolved, call.1 = writer ∧ event ∈ call.2

/-- A row shows a position of an event. -/
structure ShowsGps (r : VehicleLocation Id) (event : TelemetryEvent) (gps : NormalizedGps) :
    Prop where
  recordedAt : r.recordedAt = JsDate.parse event.recordedAt
  receivedAt : r.receivedAt = JsDate.parse event.receivedAt
  latitude : r.latitude = gps.latitude
  longitude : r.longitude = gps.longitude
  altitudeM : r.altitudeM = gps.altitudeM
  angleDeg : r.angleDeg = gps.angleDeg
  satellites : r.satellites = gps.satellites
  speedKph : r.speedKph = gps.speedKph

/-- A row shows a fuel level of an event, litres to two decimal places. -/
structure ShowsLevel (r : VehicleFuelReading Id) (event : TelemetryEvent) (reading : FuelReading) :
    Prop where
  recordedAt : r.recordedAt = JsDate.parse event.recordedAt
  receivedAt : r.receivedAt = JsDate.parse event.receivedAt
  source : r.source = reading.source
  levelPct : r.levelPct = reading.pct
  levelLiters : r.levelLiters = reading.liters.map (JsNumber.toFixed 2)

/-- The table of positions is one of the messages: each key once, each row one of a message, and all
of them once all messages are handled. -/
structure LocationsConverge (log : Partition → List TelemetryEvent) (s : Platform Process Id) :
    Prop where
  nodup : (s.db.vehicleLocations.rows.map Keyed.key).Nodup
  derived : ∀ r ∈ s.db.vehicleLocations.rows, ∃ event, Logged log event ∧
    s.db.vehicleOf? event.imei = some r.vehicleId ∧
      ∃ gps, event.gps = some gps ∧ ShowsGps r event gps
  registered : AllHandled log s .locations → ∀ event, Logged log event → event.gps.isSome = true →
    (s.db.vehicleOf? event.imei).isSome = true
  keys : AllHandled log s .locations → ∀ key,
    (∃ r ∈ s.db.vehicleLocations.rows, Keyed.key r = key) ↔
      ∃ event, Logged log event ∧ event.gps.isSome = true ∧
        ∃ id, s.db.vehicleOf? event.imei = some id ∧ key = (id, JsDate.parse event.recordedAt)

/-- The same of the table of fuel levels, which has a row for each reading. -/
structure FuelReadingsConverge (log : Partition → List TelemetryEvent) (s : Platform Process Id) :
    Prop where
  nodup : (s.db.vehicleFuelReadings.rows.map Keyed.key).Nodup
  derived : ∀ r ∈ s.db.vehicleFuelReadings.rows, ∃ event, Logged log event ∧
    s.db.vehicleOf? event.imei = some r.vehicleId ∧
      ∃ reading ∈ event.fuel, ShowsLevel r event reading
  registered : AllHandled log s .fuel → ∀ event, Logged log event → event.fuel ≠ [] →
    (s.db.vehicleOf? event.imei).isSome = true
  keys : AllHandled log s .fuel → ∀ key,
    (∃ r ∈ s.db.vehicleFuelReadings.rows, Keyed.key r = key) ↔
      ∃ event, Logged log event ∧ ∃ reading ∈ event.fuel,
        ∃ id, s.db.vehicleOf? event.imei = some id ∧
          key = (id, JsDate.parse event.recordedAt, reading.source)

section

omit [DecidableEq Process] [DecidableEq Pid] [FreshIds Id]

theorem AllHandled.stored {s : Platform Process Id} {writer : Writer}
    (h : AllHandled log s writer) (hs : Consistent log s) (event : TelemetryEvent)
    (hevent : Logged log event) : ∃ batch, event ∈ batch ∧ writer.Stored batch s.db := by
  obtain ⟨call, hcall, rfl, hmem⟩ := h event hevent
  exact ⟨call.2, hmem, hs.resolved call hcall⟩

theorem Consistent.locationsConverge {s : Platform Process Id} (hs : Consistent log s) :
    LocationsConverge log s where
  nodup := s.db.vehicleLocations.nodup
  derived r hr := by
    obtain ⟨event, hevent, id, hid, hmem⟩ := hs.vehicleLocations r hr
    obtain ⟨gps, hgps, rfl⟩ := Option.map_eq_some_iff.mp (Option.mem_toList.mp hmem)
    exact ⟨event, hevent, hid, gps, hgps, ⟨rfl, rfl, rfl, rfl, rfl, rfl, rfl, rfl⟩⟩
  registered hall event hevent hgps := by
    obtain ⟨batch, hbatch, hstored⟩ := hall.stored hs event hevent
    obtain ⟨id, hid, _⟩ := hstored event hbatch hgps
    exact Option.isSome_of_mem hid
  keys hall key := by
    refine (hs.vehicleLocations.keys (hall.stored hs) key).trans (exists_congr fun event =>
      and_congr_right fun _ => ?_)
    constructor
    · rintro ⟨id, hid, r, hr, rfl⟩
      obtain ⟨gps, hgps, rfl⟩ := Option.map_eq_some_iff.mp (Option.mem_toList.mp hr)
      exact ⟨Option.isSome_of_mem hgps, id, hid, rfl⟩
    · rintro ⟨hgps, id, hid, rfl⟩
      obtain ⟨gps, hgps⟩ := Option.isSome_iff_exists.mp hgps
      refine ⟨id, hid, locationRow id event gps, ?_, rfl⟩
      exact Option.mem_toList.mpr (Option.map_eq_some_iff.mpr ⟨gps, hgps, rfl⟩)

theorem Consistent.fuelReadingsConverge {s : Platform Process Id} (hs : Consistent log s) :
    FuelReadingsConverge log s where
  nodup := s.db.vehicleFuelReadings.nodup
  derived r hr := by
    obtain ⟨event, hevent, id, hid, hmem⟩ := hs.vehicleFuelReadings r hr
    obtain ⟨reading, hreading, rfl⟩ := List.mem_map.mp hmem
    exact ⟨event, hevent, hid, reading, hreading, ⟨rfl, rfl, rfl, rfl, rfl⟩⟩
  registered hall event hevent hfuel := by
    obtain ⟨batch, hbatch, hstored⟩ := hall.stored hs event hevent
    obtain ⟨id, hid, _⟩ := hstored event hbatch
      (decide_eq_true (List.length_pos_iff.mpr hfuel))
    exact Option.isSome_of_mem hid
  keys hall key := by
    refine (hs.vehicleFuelReadings.keys (hall.stored hs) key).trans (exists_congr fun event =>
      and_congr_right fun _ => ?_)
    constructor
    · rintro ⟨id, hid, r, hr, rfl⟩
      obtain ⟨reading, hreading, rfl⟩ := List.mem_map.mp hr
      exact ⟨reading, hreading, id, hid, rfl⟩
    · rintro ⟨reading, hreading, id, hid, rfl⟩
      exact ⟨id, hid, fuelRow id event reading, List.mem_map_of_mem hreading, rfl⟩

theorem StepOf.storesBatch {s s' : Platform Process Id} {i : Pid}
    {call call' : Option (WriterCall Id)} (h : StepOf host writer refusable log s i call s' call') :
    (s'.db.vehicleLocations = s.db.vehicleLocations ∨ ∃ c, call = some c ∧
        writer i = .locations ∧ locationsWriter.StoresBatch c.events s.db s'.db) ∧
      (s'.db.vehicleFuelReadings = s.db.vehicleFuelReadings ∨ ∃ c, call = some c ∧
        writer i = .fuel ∧ fuelWriter.StoresBatch c.events s.db s'.db) := by
  rcases h.acts with hquiet | ⟨c, hc, hacts⟩
  · exact ⟨.inl hquiet.vehicleLocations, .inl hquiet.vehicleFuelReadings⟩
  · exact hacts.storesBatch.imp (.imp_right fun h => ⟨c, hc, h⟩) (.imp_right fun h => ⟨c, hc, h⟩)

end

/-- Whatever the schedule, the tables converge to what the messages say. A step stores the rows of a
whole batch or none, and no call fails by itself. -/
theorem writers_converge (hlog : ∀ p, ∀ event ∈ log p, StorableEvent event)
    {c₀ c : Config Pid (Platform Process Id) (Option (WriterCall Id))} (h₀ : Started c₀)
    (h : (writers host writer).Run (admits host log) c₀ c) :
    LocationsConverge log c.shared ∧ FuelReadingsConverge log c.shared ∧
      (∀ i a c', admits host log c i a → (writers host writer).move c i a = some c' →
        (c'.shared.db.vehicleLocations = c.shared.db.vehicleLocations ∨
          ∃ call, c.locals i = some call ∧ writer i = .locations ∧
            locationsWriter.StoresBatch call.events c.shared.db c'.shared.db) ∧
        (c'.shared.db.vehicleFuelReadings = c.shared.db.vehicleFuelReadings ∨
          ∃ call, c.locals i = some call ∧ writer i = .fuel ∧
            fuelWriter.StoresBatch call.events c.shared.db c'.shared.db)) ∧
      ∀ i call, c.locals i = some call → ∀ err, call.rest ≠ .throw err := by
  have hacceptable := Acceptable.of_storable hlog
  obtain ⟨hs, hcalls⟩ := h₀.sound hacceptable h
  refine ⟨hs.locationsConverge, hs.fuelReadingsConverge, ?_, ?_⟩
  · intro i a c' hadmits hmove
    obtain ⟨s', call', hstep, rfl⟩ := Interleaving.move_eq_some.mp hmove
    exact (writerStep_spec hacceptable (hs.agrees _) (hcalls i) hadmits hstep).storesBatch
  · intro i call hcall err herr
    have hguards := (hcalls i call hcall).guards
    rw [herr] at hguards
    exact hguards

/-- A position with the level of the tank. -/
def positioned (time : String) : TelemetryEvent :=
  { report time lowTank with gps := some ⟨25, 55, 12, 90, 9, 40⟩ }

/-- Two positions that are delivered live, the first of them once more later. -/
def resent : Partition → List TelemetryEvent
  | ⟨.live, 0⟩ => [positioned "01:00", positioned "02:00"]
  | ⟨.backfill, 0⟩ => [positioned "01:00"]
  | _ => []

theorem logged_resent {event : TelemetryEvent} (h : Logged resent event) :
    event ∈ [positioned "01:00", positioned "02:00"] := by
  obtain ⟨p, hp⟩ := h
  unfold resent at hp
  split at hp
  · exact hp
  · exact List.mem_of_mem_head? (by rw [List.mem_singleton.mp hp]; rfl)
  · cases hp

theorem storableEvent_positioned {time : String}
    (hdates : Dated (positioned time)) : StorableEvent (positioned time) where
  imei := (by decide : imeiDigits "356307042441013" = true)
  gps gps hgps := by
    obtain rfl := Option.some.inj hgps
    have hgps : DecodableGps ⟨25, 55, 12, 90, 9, 40⟩ := by
      constructor <;> norm_num [Safe, JsNumber.maxSafeInteger]
    exact inOrder_locationColumns hdates hgps (by decide) (by decide) (by decide) (by decide)
  fuel reading hreading := by
    obtain rfl := List.mem_singleton.mp hreading
    exact (inOrder_pctReading hdates .canPct 10).mpr (by omega)

/-- One process that runs both writers, before the first message. -/
def idle : Config Writer (Platform Unit ℕ) (Option (WriterCall ℕ)) :=
  ⟨⟨.empty, fun _ => .start, []⟩, fun _ => none⟩

theorem started_idle : Started idle where
  vehicleLocations := rfl
  vehicleFuelReadings := rfl
  agrees _ := .start _
  resolved := rfl
  idle _ := rfl

theorem storable_resent (p : Partition) : ∀ event ∈ resent p, StorableEvent event := by
  have hone : Dated (positioned "01:00") := by decide
  have htwo : Dated (positioned "02:00") := by decide
  intro event hevent
  have hmem := logged_resent ⟨p, hevent⟩
  simp only [List.mem_cons, List.not_mem_nil, or_false] at hmem
  rcases hmem with rfl | rfl
  · exact storableEvent_positioned hone
  · exact storableEvent_positioned htwo

theorem writers_converge_resent :
    ∃ c, (writers (fun _ => ()) id).Run (admits (fun _ => ()) resent) idle c ∧
      (AllHandled resent c.shared .locations ∧ AllHandled resent c.shared .fuel) ∧
      LocationsConverge resent c.shared ∧ FuelReadingsConverge resent c.shared := by
  have hlive : resent ⟨.live, 0⟩ <:+: resent ⟨.live, 0⟩ := List.infix_refl _
  have hbackfill : resent ⟨.backfill, 0⟩ <:+: resent ⟨.backfill, 0⟩ := List.infix_refl _
  have hstart : (writers (fun _ => ()) id).Run (admits (fun _ => ()) resent) idle idle := .refl
  have hlog := Acceptable.of_storable storable_resent
  obtain ⟨c₁, h₁, hlocals₁, hresolved₁⟩ := deliver_resolves hlog started_idle hstart
    (i := .locations) rfl not_false hlive
  obtain ⟨c₂, h₂, hlocals₂, hresolved₂⟩ := deliver_resolves hlog started_idle h₁
    (i := .fuel) (by rw [hlocals₁]; rfl) not_false hlive
  obtain ⟨c₃, h₃, -, hresolved₃⟩ := deliver_resolves hlog started_idle (h₁.trans h₂)
    (i := .locations) (by rw [hlocals₂, hlocals₁]; rfl) not_false hbackfill
  have hrun := (h₁.trans h₂).trans h₃
  obtain ⟨hlocations, hfuel, _⟩ := writers_converge storable_resent started_idle hrun
  have hresolved : c₃.shared.resolved = [(.locations, [positioned "01:00", positioned "02:00"]),
      (.fuel, [positioned "01:00", positioned "02:00"]), (.locations, [positioned "01:00"])] := by
    rw [hresolved₃, hresolved₂, hresolved₁]
    rfl
  refine ⟨c₃, hrun, ⟨fun event hevent => ?_, fun event hevent => ?_⟩, hlocations, hfuel⟩
  · exact ⟨_, by rw [hresolved]; exact List.mem_cons_self, rfl, logged_resent hevent⟩
  · exact ⟨_, by rw [hresolved]; exact List.mem_cons_of_mem _ List.mem_cons_self, rfl,
      logged_resent hevent⟩

end BankPlatform.Telemetry
