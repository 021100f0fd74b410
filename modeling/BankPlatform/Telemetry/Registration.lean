import BankPlatform.Library.Hosting
import BankPlatform.Telemetry.Convergence

/-!
# Racing registries

Each process has a registry with a cache of its own (`createVehicleRegistry`), and its consumers
use it at the same time. All registries share one table of vehicles, without any lock between the
insert of a vehicle, the statement that reads it back, and the cache.

## Main definitions

* `Request`, `Request.handler` — the calls of a registry.
* `registries` — any number of calls in any number of processes over one database.

## Main results

* `registration_agrees` — whatever the schedule and the failures, a device is one vehicle to all.
-/

namespace BankPlatform.Telemetry

open Library

variable {Id Pid Process : Type}

inductive Request where
  | resolve (imei : String)
  | resolveAll (imeis : List String)
  deriving DecidableEq, Repr

/-- What a call returns: a vehicle, or one for each device. -/
inductive Answer (Id : Type) where
  | vehicle (id : Id)
  | vehicles (ids : JsMap String Id)

namespace Request

def imeis : Request → List String
  | resolve imei => [imei]
  | resolveAll imeis => imeis

def handler [FreshIds Id] : Request → Handler Id (Answer Id)
  | resolve imei => do return .vehicle (← Telemetry.resolve imei)
  | resolveAll imeis => do return .vehicles (← Telemetry.resolveAll imeis)

end Request

/-- The answer to a call takes the device for this vehicle. -/
def Takes : Request × Answer Id → String → Id → Prop
  | (.resolve imei', .vehicle id'), imei, id => imei' = imei ∧ id' = id
  | (.resolveAll _, .vehicles ids), imei, id => (imei, id) ∈ ids.rows
  | _, _, _ => False

/-- The answer has exactly one entry for each device that was asked for. -/
def OneEach : Request × Answer Id → Prop
  | (.resolve _, .vehicle _) => True
  | (.resolveAll imeis, .vehicles ids) =>
    (ids.rows.map Prod.fst).Nodup ∧ ∀ imei, imei ∈ ids.rows.map Prod.fst ↔ imei ∈ imeis
  | _ => False

/-! ## The system -/

/-- A handler sees the database and the memory of its process. -/
def worldEquiv : TelemetryDb Id × Memory Id ≃ World Id where
  toFun s := ⟨s.1, s.2.registry, s.2.engineStates, s.2.geofenceCache⟩
  invFun w := (w.db, ⟨w.registry, w.engineStates, w.geofenceCache⟩)
  left_inv _ := rfl
  right_inv _ := rfl

variable (Id) in
/-- The registries of all processes. -/
def registries [FreshIds Id] :
    Hosting (World Id) (TelemetryDb Id) (Memory Id) Statement DbError Request (Answer Id) where
  view := worldEquiv
  start := .start
  program := Request.handler

/-- No row of the vehicles is deleted, and none gets another key. -/
def VehiclesStay (db db' : TelemetryDb Id) : Prop :=
  ∀ imei v, db.vehicles.find? imei = some v → db'.vehicles.find? imei = some v

/-- What the table has, an answer says. -/
def Promised (q : Request) (a : Answer Id) (db : TelemetryDb Id) : Prop :=
  (∀ imei id, Takes (q, a) imei id → db.vehicles.find? imei = some ⟨id, imei⟩) ∧ OneEach (q, a)

theorem Promised.stay {q : Request} {a : Answer Id} {db db' : TelemetryDb Id}
    (h : Promised q a db) (hstay : VehiclesStay db db') : Promised q a db' :=
  ⟨fun imei id htakes => hstay _ _ (h.1 imei id htakes), h.2⟩

theorem Resolution.promised {imeis : List String} {ids : JsMap String Id} {w : World Id}
    (h : Resolution imeis ids w) : Promised (.resolveAll imeis) (.vehicles ids) w.db := by
  refine ⟨fun imei id htakes => ?_, ids.nodup, fun imei => ⟨fun hmem => ?_, fun himei => ?_⟩⟩
  · obtain ⟨id', hid', hv⟩ := h.resolves imei (h.asked _ htakes)
    have hsame : (imei, id) = (imei, id') :=
      Option.some.inj ((Table.find?_key htakes).symm.trans hid')
    rwa [(Prod.mk.inj hsame).2]
  · obtain ⟨e, he, rfl⟩ := List.mem_map.mp hmem
    exact h.asked e he
  · obtain ⟨id, hid, _⟩ := h.resolves imei himei
    exact List.mem_map.mpr ⟨_, Table.mem_of_find? hid, rfl⟩

variable [FreshIds Id]

/-- What a call relies on, and what it guarantees. -/
theorem relies_iff {w w' : World Id} :
    (registries Id).relies VehiclesStay RegistryAgrees w w' ↔ KeepsVehicles w w' :=
  ⟨fun h => ⟨h.2, h.1⟩, fun h => ⟨h.vehicles, h.agrees⟩⟩

theorem Request.guards (q : Request) (hq : ∀ imei ∈ q.imeis, imeiDigits imei = true)
    {w : World Id} (hw : RegistryAgrees w) :
    Session.Guards KeepsVehicles KeepsVehicles (fun a t => Promised q a t.db) q.handler w := by
  have hregisters : ∀ w w' : World Id, Registers w w' → (RegistryAgrees w → RegistryAgrees w') →
      KeepsVehicles w w' := fun _ _ h hagrees => ⟨hagrees, h.vehicles⟩
  cases q with
  | resolve imei =>
    refine (guards_resolve (fun _ _ => id) hregisters (hq imei (List.mem_singleton.mpr rfl)) hw).bind
      fun id t ⟨_, hv⟩ => Session.guards_pure ⟨?_, trivial⟩
    rintro imei id ⟨rfl, rfl⟩
    exact hv
  | resolveAll imeis =>
    exact (guards_resolveAll (fun _ _ => id) hregisters (fun _ _ => id) hq hw).bind
      fun ids t hids => Session.guards_pure hids.promised

variable (Id) in
/-- The table keeps its vehicles and every cache agrees with it; only IMEIs are resolved. -/
def registration : (registries Id).Discipline where
  keeps := VehiclesStay
  keeps_refl _ _ _ := id
  keeps_trans _ _ _ h h' imei v hv := h' imei v (h imei v hv)
  inv := RegistryAgrees
  inv_keeps _ _ _ hagrees hstay e he := hstay _ _ (hagrees e he)
  inv_start db := .start db
  accepts q := ∀ imei ∈ q.imeis, imeiDigits imei = true
  promise := Promised
  promise_keeps _ _ _ _ := Promised.stay
  guards q hq w hw := by
    have hrelies : (registries Id).relies VehiclesStay RegistryAgrees = KeepsVehicles :=
      funext₂ fun _ _ => propext relies_iff
    rw [hrelies]
    exact q.guards hq hw

omit [FreshIds Id] in
/-- Answers that the table bears out take a device for one vehicle, and a vehicle for one device. -/
theorem Promised.agree {q q' : Request} {a a' : Answer Id} {db : TelemetryDb Id}
    (h : Promised q a db) (h' : Promised q' a' db) {imei imei' : String} {id id' : Id}
    (htakes : Takes (q, a) imei id) (htakes' : Takes (q', a') imei' id') :
    imei = imei' ↔ id = id' := by
  have hv := h.1 _ _ htakes
  have hv' := h'.1 _ _ htakes'
  constructor
  · rintro rfl
    have hsame := Option.some.inj (hv.symm.trans hv')
    exact congrArg Vehicle.id hsame
  · rintro rfl
    refine vehicleOf_inj (w := World.start db) (v := id) ?_ ?_
    · exact Option.map_eq_some_iff.mpr ⟨_, hv, rfl⟩
    · exact Option.map_eq_some_iff.mpr ⟨_, hv', rfl⟩

variable [DecidableEq Process] [DecidableEq Pid] {host : Pid → Process}

/-- The calls of the registries, each in the process that hosts it. -/
abbrev RegistryConfig (Pid Process Id : Type) :=
  Config Pid (Hosts Process (TelemetryDb Id) (Memory Id) Request (Answer Id))
    (Option (HostedCall (World Id) Statement DbError Request (Answer Id)))

/-- Before the first call: whatever the table has, the caches agree with it. -/
structure Unasked (c : RegistryConfig Pid Process Id) : Prop where
  agrees : ∀ m, RegistryAgrees ((registries Id).world c.shared m)
  answers : c.shared.answers = []
  idle : ∀ i, c.locals i = none

omit [DecidableEq Process] [DecidableEq Pid] in
theorem Unasked.consistent {c : RegistryConfig Pid Process Id} (h : Unasked c) :
    (registration Id).Consistent c.shared where
  inv := h.agrees
  answers e he := by
    rw [h.answers] at he
    cases he

/-- Whatever the order of the steps and wherever statements fail, all registries take a device for
the same vehicle at all times and different devices for different ones, as the table does; and a
call that is left alone returns. -/
theorem registration_agrees {c₀ c : RegistryConfig Pid Process Id} (h₀ : Unasked c₀)
    (h : ((registries Id).calls host).Run ((registration Id).admits host) c₀ c) :
    (c.shared.store.vehicles.rows.map Vehicle.imei).Nodup ∧
      (∀ m, ∀ e ∈ (c.shared.memory m).registry.rows,
        c.shared.store.vehicles.find? e.1 = some ⟨e.2, e.1⟩) ∧
      (∀ a ∈ c.shared.answers, ∀ b ∈ c.shared.answers, ∀ imei imei' id id',
        Takes a imei id → Takes b imei' id' → (imei = imei' ↔ id = id')) ∧
      (∀ a ∈ c.shared.answers, OneEach a ∧ ∀ imei id, Takes a imei id →
        c.shared.store.vehicles.find? imei = some ⟨id, imei⟩) ∧
      ∀ i call, c.locals i = some call → ∃ c' a,
        ((registries Id).calls host).Run ((registration Id).admits host) c c' ∧
          c'.shared.answers = c.shared.answers ++ [(call.query, a)] := by
  obtain ⟨hs, _⟩ := Hosting.Discipline.sound h₀.consistent h₀.idle h
  refine ⟨c.shared.store.vehicles.nodup, hs.inv, ?_,
    fun a ha => ⟨(hs.answers a ha).2, (hs.answers a ha).1⟩, ?_⟩
  · intro a ha b hb imei imei' id id' htakes htakes'
    exact (hs.answers a ha).agree (hs.answers b hb) htakes htakes'
  · intro i call hcall
    obtain ⟨c', a, hrun, _, hanswers⟩ :=
      Hosting.Discipline.run_finishes h₀.consistent h₀.idle call.rest h hcall
    exact ⟨c', a, hrun, hanswers⟩

/-- Two processes that have just started. -/
def fresh : RegistryConfig Bool Bool ℕ := ⟨⟨.empty, fun _ => .start, []⟩, fun _ => none⟩

theorem unasked_fresh : Unasked fresh := ⟨fun _ => .start _, rfl, fun _ => rfl⟩

/-- A new device. -/
def newDevice : Request := .resolve "356307042441013"

theorem admits_newDevice (c : RegistryConfig Bool Bool ℕ) (i : Bool) :
    (registration ℕ).admits id c i (.call newDevice) := by
  intro imei himei
  obtain rfl := List.mem_singleton.mp himei
  decide

open Hosting.Discipline (run_callStep run_finishes) in
/-- Both processes look it up in their caches before either registers it. -/
theorem registration_agrees_race : ∃ c v,
    ((registries ℕ).calls id).Run ((registration ℕ).admits id) fresh c ∧
      c.shared.answers = [(newDevice, .vehicle v), (newDevice, .vehicle v)] := by
  have hcalled := (run_callStep id (registration ℕ) (admits_newDevice fresh true) rfl).trans
    (run_callStep id (registration ℕ) (admits_newDevice _ false) rfl)
  have hmissed := (hcalled.trans
    (run_callStep id (registration ℕ) (i := true) (a := .proceed) trivial rfl)).trans
    (run_callStep id (registration ℕ) (i := false) (a := .proceed) trivial rfl)
  obtain ⟨c, a, hfirst, hlocals, hanswers⟩ := run_finishes (i := true)
    unasked_fresh.consistent unasked_fresh.idle _ hmissed rfl
  obtain ⟨c', b, hsecond, _, hanswers'⟩ := run_finishes (i := false)
    unasked_fresh.consistent unasked_fresh.idle _ (hmissed.trans hfirst) (by rw [hlocals]; rfl)
  have hrun := (hmissed.trans hfirst).trans hsecond
  have hboth : c'.shared.answers = [(newDevice, a), (newDevice, b)] := by
    rw [hanswers', hanswers]
    rfl
  obtain ⟨_, _, hagree, heach, _⟩ := registration_agrees unasked_fresh hrun
  rw [hboth] at hagree heach
  have ha := (heach (newDevice, a) (by simp)).1
  have hb := (heach (newDevice, b) (by simp)).1
  cases a with
  | vehicles ids => exact ha.elim
  | vehicle v =>
    cases b with
    | vehicles ids => exact hb.elim
    | vehicle v' =>
      obtain rfl := (hagree (newDevice, .vehicle v) (by simp) (newDevice, .vehicle v') (by simp)
        _ _ v v' ⟨rfl, rfl⟩ ⟨rfl, rfl⟩).mp rfl
      exact ⟨c', v, hrun, hboth⟩

end BankPlatform.Telemetry
