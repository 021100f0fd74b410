import BankPlatform.Library.JsMap
import BankPlatform.Library.Session
import BankPlatform.Telemetry.Store

/-!
# The vehicle registry

`apps/telemetry-consumers/src/vehicles.ts`: an IMEI is resolved to a vehicle, which is registered on
first sight. The handlers of the consumers are programs over the database and the memory of their
process.

## Main definitions

* `World` — the database and what a process remembers.
* `resolve`, `resolveAll` — the registry.

## Main results

* `does_resolveAll`, `fails_resolveAll` — vehicles are registered and nothing else changes, also
  when a statement fails on the way.
-/

namespace BankPlatform.Telemetry

open Library

/-- What the engine handler remembers of a vehicle. -/
structure VehicleState where
  ignition : Option Bool
  movement : Option Bool
  deriving DecidableEq, Repr

structure World (Id : Type) where
  db : TelemetryDb Id
  /-- The cache of the vehicle registry. -/
  registry : JsMap String Id
  /-- The states of the engine handler. -/
  engineStates : JsMap Id VehicleState
  /-- The active geofences as the alerting handler last loaded them, and when. -/
  geofenceCache : Option (List Geofence × ℤ)

/-- A process that has just started, over a database. -/
def World.start {Id : Type} (db : TelemetryDb Id) : World Id := ⟨db, Table.empty, Table.empty, none⟩

/-- The statements of the handlers. A statement of the alerting handler is about the reading at
some position of its batch. -/
inductive Statement where
  | insertVehicle (imei : String)
  | selectVehicle (imei : String)
  | insertLocations
  | insertFuelReadings
  | selectTransition
  | insertEngineEvents
  | selectGeofences
  | selectAlertState (position : ℕ) (alertType : VehicleAlertType)
  | clearAlertState (position : ℕ) (alertType : VehicleAlertType)
  | upsertAlertState (position : ℕ) (alertType : VehicleAlertType)
  | insertAlert (position : ℕ) (alertType : VehicleAlertType)
  deriving DecidableEq, Repr

abbrev Handler (Id : Type) := Session (World Id) Statement DbError

variable {Id : Type}

/-! ## What handlers may leave behind -/

/-- The cache agrees with the table. -/
def RegistryAgrees (w : World Id) : Prop :=
  ∀ e ∈ w.registry.rows, w.db.vehicles.find? e.1 = some ⟨e.2, e.1⟩

theorem RegistryAgrees.start (db : TelemetryDb Id) : RegistryAgrees (World.start db) := by
  intro e he
  cases he

/-- The id of a registered device. -/
def vehicleOf (w : World Id) (imei : String) : Option Id :=
  (w.db.vehicles.find? imei).map Vehicle.id

theorem vehicleOf_inj {w : World Id} {imei imei' : String} {v : Id}
    (h : vehicleOf w imei = some v) (h' : vehicleOf w imei' = some v) : imei = imei' := by
  obtain ⟨row, hrow, rfl⟩ := Option.map_eq_some_iff.mp h
  obtain ⟨row', hrow', hid⟩ := Option.map_eq_some_iff.mp h'
  have hsame : row' = row := List.inj_on_of_nodup_map w.db.vehicleIds
    (Table.mem_of_find? hrow') (Table.mem_of_find? hrow) hid
  rw [← Table.key_of_find? hrow, ← Table.key_of_find? hrow', hsame]

/-- From `w` to `w'` vehicles were registered, and nothing else happened. -/
structure Registers (w w' : World Id) : Prop where
  vehicles : ∀ imei v, w.db.vehicles.find? imei = some v → w'.db.vehicles.find? imei = some v
  vehicleLocations : w'.db.vehicleLocations = w.db.vehicleLocations
  vehicleFuelReadings : w'.db.vehicleFuelReadings = w.db.vehicleFuelReadings
  vehicleEngineEvents : w'.db.vehicleEngineEvents = w.db.vehicleEngineEvents
  geofences : w'.db.geofences = w.db.geofences
  vehicleAlerts : w'.db.vehicleAlerts = w.db.vehicleAlerts
  vehicleAlertStates : w'.db.vehicleAlertStates = w.db.vehicleAlertStates
  engineStates : w'.engineStates = w.engineStates
  geofenceCache : w'.geofenceCache = w.geofenceCache

theorem Registers.vehicleOf_eq {w w' : World Id} (h : Registers w w') {imei : String} {v : Id}
    (hv : vehicleOf w imei = some v) : vehicleOf w' imei = some v := by
  obtain ⟨row, hrow, rfl⟩ := Option.map_eq_some_iff.mp hv
  rw [vehicleOf, h.vehicles imei row hrow, Option.map_some]

theorem Registers.refl (w : World Id) : Registers w w :=
  ⟨fun _ _ h => h, rfl, rfl, rfl, rfl, rfl, rfl, rfl, rfl⟩

theorem Registers.trans {w w' w'' : World Id} (h : Registers w w') (h' : Registers w' w'') :
    Registers w w'' where
  vehicles imei v hv := h'.vehicles imei v (h.vehicles imei v hv)
  vehicleLocations := h'.vehicleLocations.trans h.vehicleLocations
  vehicleFuelReadings := h'.vehicleFuelReadings.trans h.vehicleFuelReadings
  vehicleEngineEvents := h'.vehicleEngineEvents.trans h.vehicleEngineEvents
  geofences := h'.geofences.trans h.geofences
  vehicleAlerts := h'.vehicleAlerts.trans h.vehicleAlerts
  vehicleAlertStates := h'.vehicleAlertStates.trans h.vehicleAlertStates
  engineStates := h'.engineStates.trans h.engineStates
  geofenceCache := h'.geofenceCache.trans h.geofenceCache

/-- The cache is no part of the database. -/
theorem Registers.cached (w : World Id) (registry : JsMap String Id) :
    Registers w { w with registry } :=
  ⟨fun _ _ h => h, rfl, rfl, rfl, rfl, rfl, rfl, rfl, rfl⟩

theorem RegistryAgrees.registers {w w' : World Id} (h : RegistryAgrees w) (hw : Registers w w')
    (hregistry : w'.registry = w.registry) : RegistryAgrees w' := by
  intro e he
  rw [hregistry] at he
  exact hw.vehicles _ _ (h e he)

theorem RegistryAgrees.set {w : World Id} (h : RegistryAgrees w) {imei : String} {v : Vehicle Id}
    (hv : w.db.vehicles.find? imei = some v) (hnew : w.registry.find? imei = none) :
    RegistryAgrees { w with registry := JsMap.set w.registry imei v.id } := by
  intro e he
  have hfresh : imei ∉ w.registry.rows.map Prod.fst := by
    intro hmem
    obtain ⟨e', he', hkey⟩ := List.mem_map.mp hmem
    exact Table.find?_eq_none.mp hnew e' he' hkey
  rw [JsMap.rows_set_of_fresh hfresh v.id] at he
  rcases List.mem_append.mp he with he | he
  · exact h e he
  · obtain rfl := List.mem_singleton.mp he
    obtain rfl : v.imei = imei := Table.key_of_find? hv
    exact hv

/-! ## Writes -/

/-- A statement that changes the database. -/
def write (label : Statement) (f : TelemetryDb Id → Except DbError (TelemetryDb Id)) :
    Handler Id Unit :=
  Session.execute label fun w => (f w.db).map fun db => { w with db }

theorem does_write {label : Statement} {f : TelemetryDb Id → Except DbError (TelemetryDb Id)}
    {w w' : World Id} : Session.Does (write label f) w () w' ↔
      ∃ db, f w.db = .ok db ∧ w' = { w with db } := by
  rw [write, Session.does_execute]
  cases f w.db with
  | ok db => simp [Except.map, eq_comm]
  | error err => simp [Except.map]

/-- A write that fails either took effect or left everything as it was. -/
theorem fails_write {name label : Statement} {f : TelemetryDb Id → Except DbError (TelemetryDb Id)}
    {w w' : World Id} {landed : Bool} (h : Session.Fails (write name f) w label landed w') :
    label = name ∧
      ((landed = true ∧ ∃ db, f w.db = .ok db ∧ w' = { w with db }) ∨
        (w' = w ∧ (landed = true → ∃ err, f w.db = .error err))) := by
  obtain ⟨rfl, rfl⟩ := Session.fails_execute.mp h
  refine ⟨rfl, ?_⟩
  cases landed with
  | false => exact .inr ⟨rfl, fun h => by cases h⟩
  | true =>
    cases f w.db with
    | ok db => exact .inl ⟨rfl, db, rfl, rfl⟩
    | error err => exact .inr ⟨rfl, fun _ => ⟨err, rfl⟩⟩

/-! ## The program -/

variable [FreshIds Id]

/-- The way of an IMEI that is not cached. Two consumers can race on a new device; the loser reads
the winner's row back. -/
def register (imei : String) : Handler Id Id := do
  write (.insertVehicle imei) (insertVehicle imei)
  let row ← Session.query (.selectVehicle imei) fun w => w.db.vehicles.find? imei
  match row with
  | none => .throw (.vanished imei)
  | some v =>
    Session.modify fun w => { w with registry := JsMap.set w.registry imei v.id }
    return v.id

def resolve (imei : String) : Handler Id Id := do
  match (← Session.get).registry.find? imei with
  | some e => return e.2
  | none => register imei

/-- Resolves many IMEIs, one entry for each distinct device. -/
def resolveAll (imeis : List String) : Handler Id (JsMap String Id) :=
  imeis.eraseDups.foldlM
    (fun resolved imei => do return JsMap.set resolved imei (← resolve imei)) Table.empty

/-! ## What it does -/

/-- The insert of a vehicle: afterwards there is a row for its IMEI. -/
theorem insertVehicle_spec {imei : String} (himei : imeiDigits imei = true) (w : World Id) :
    ∃ db v, insertVehicle imei w.db = .ok db ∧ db.vehicles.find? imei = some v ∧
      Registers w { w with db } := by
  unfold insertVehicle
  rw [if_neg (by simp [himei])]
  split
  · next vehicles hinsert =>
    have hkey : Keyed.key (newVehicle imei w.db.vehicles) = imei := rfl
    refine ⟨_, newVehicle imei w.db.vehicles, rfl, ?_, ?_⟩
    · rw [Table.find?_insert? hinsert, if_pos hkey]
    · exact ⟨fun k v hv => Table.find?_insert?_of_some hinsert hv, rfl, rfl, rfl, rfl, rfl, rfl,
        rfl, rfl⟩
  · next hinsert =>
    cases hv : w.db.vehicles.find? imei with
    | some v => exact ⟨w.db, v, rfl, hv, .refl w⟩
    | none =>
      have hkey : w.db.vehicles.find? (Keyed.key (newVehicle imei w.db.vehicles)) = none := hv
      simp [Table.insert?, hkey] at hinsert

theorem does_register {imei : String} (himei : imeiDigits imei = true) {w : World Id}
    (h : RegistryAgrees w) (hnew : w.registry.find? imei = none) :
    ∃ id w', Session.Does (register imei) w id w' ∧ RegistryAgrees w' ∧ Registers w w' ∧
      w'.db.vehicles.find? imei = some ⟨id, imei⟩ := by
  obtain ⟨db, v, hinsert, hv, hregisters⟩ := insertVehicle_spec himei w
  obtain rfl : v.imei = imei := Table.key_of_find? hv
  have hagrees : RegistryAgrees { w with db } := h.registers hregisters rfl
  refine ⟨v.id, _, ?_, hagrees.set hv hnew, hregisters.trans (.cached _ _), hv⟩
  refine (does_write.mpr ⟨db, hinsert, rfl⟩).bind ?_
  refine (Session.does_query _ _ _).bind ?_
  dsimp only
  rw [hv]
  exact (Session.does_modify _ _).bind rfl

/-- An IMEI is resolved to the vehicle that the table has for it. -/
theorem does_resolve {imei : String} (himei : imeiDigits imei = true) {w : World Id}
    (h : RegistryAgrees w) :
    ∃ id w', Session.Does (resolve imei) w id w' ∧ RegistryAgrees w' ∧ Registers w w' ∧
      w'.db.vehicles.find? imei = some ⟨id, imei⟩ := by
  cases hcached : w.registry.find? imei with
  | some e =>
    obtain rfl : e.1 = imei := Table.key_of_find? hcached
    refine ⟨e.2, w, ?_, h, .refl w, h e (Table.mem_of_find? hcached)⟩
    refine (Session.does_get w).bind ?_
    rw [hcached]
    rfl
  | none =>
    obtain ⟨id, w', hdoes, hspec⟩ := does_register himei h hcached
    refine ⟨id, w', (Session.does_get w).bind ?_, hspec⟩
    rw [hcached]
    exact hdoes

/-- The statements of the registry. -/
def Statement.ofRegistry : Statement → Bool
  | .insertVehicle _ => true
  | .selectVehicle _ => true
  | _ => false

/-- Whatever fails on the way, at most vehicles are registered. -/
theorem fails_resolve {imei : String} (himei : imeiDigits imei = true) {w w' : World Id}
    {label : Statement} {landed : Bool} (h : RegistryAgrees w)
    (hfails : Session.Fails (resolve imei) w label landed w') :
    RegistryAgrees w' ∧ Registers w w' ∧ label.ofRegistry = true := by
  obtain ⟨db, v, hinsert, hv, hregisters⟩ := insertVehicle_spec himei w
  rcases Session.fails_bind.mp hfails with hget | ⟨a, t, hget, hrest⟩
  · exact (Session.not_fails_get hget).elim
  obtain ⟨rfl, rfl⟩ := Session.Does.unique (Session.does_get w) hget
  split at hrest
  · exact (Session.not_fails_pure hrest).elim
  rcases Session.fails_bind.mp hrest with hwrite | ⟨_, t', hwrite, hrest⟩
  · obtain ⟨rfl, ⟨_, db', hdb', rfl⟩ | ⟨rfl, _⟩⟩ := fails_write hwrite
    · obtain rfl := Except.ok.inj (hinsert.symm.trans hdb')
      exact ⟨h.registers hregisters rfl, hregisters, rfl⟩
    · exact ⟨h, .refl _, rfl⟩
  · obtain ⟨db', hdb', rfl⟩ := does_write.mp hwrite
    obtain rfl := Except.ok.inj (hinsert.symm.trans hdb')
    rcases Session.fails_bind.mp hrest with hquery | ⟨row, t', hquery, hrest⟩
    · obtain ⟨rfl, rfl⟩ := Session.fails_query.mp hquery
      exact ⟨h.registers hregisters rfl, hregisters, rfl⟩
    · obtain ⟨rfl, rfl⟩ := Session.Does.unique (Session.does_query _ _ _) hquery
      dsimp only at hrest
      rw [hv] at hrest
      rcases Session.fails_bind.mp hrest with hmodify | ⟨_, _, _, hpure⟩
      · exact (Session.not_fails_modify hmodify).elim
      · exact (Session.not_fails_pure hpure).elim

/-- What `resolveAll` returns for some IMEIs: the vehicles that the table has for them. -/
def Resolves (imeis : List String) (ids : JsMap String Id) (w : World Id) : Prop :=
  ∀ imei ∈ imeis, ∃ id, ids.find? imei = some (imei, id) ∧
    w.db.vehicles.find? imei = some ⟨id, imei⟩

omit [FreshIds Id] in
theorem Resolves.set {imeis : List String} {ids : JsMap String Id} {w : World Id}
    (h : Resolves imeis ids w) {imei : String} {id : Id}
    (hid : w.db.vehicles.find? imei = some ⟨id, imei⟩) :
    Resolves (imeis ++ [imei]) (JsMap.set ids imei id) w := by
  intro imei' himei'
  rw [JsMap.find?_set]
  by_cases heq : imei = imei'
  · subst heq
    exact ⟨id, if_pos rfl, hid⟩
  · rcases List.mem_append.mp himei' with hdone | hnew
    · obtain ⟨id', hids, hid'⟩ := h imei' hdone
      exact ⟨id', by rw [if_neg heq, hids], hid'⟩
    · exact (heq (List.mem_singleton.mp hnew).symm).elim

/-- What holds when some IMEIs have been resolved. -/
structure Resolved (w : World Id) (imeis : List String) (ids : JsMap String Id) (w' : World Id) :
    Prop where
  agrees : RegistryAgrees w'
  registers : Registers w w'
  resolves : Resolves imeis ids w'

theorem does_resolve_next {w : World Id} {imei : String} (himei : imeiDigits imei = true)
    {done : List String} {ids : JsMap String Id} {t : World Id} (h : Resolved w done ids t) :
    ∃ ids' w', Session.Does (do return JsMap.set ids imei (← resolve imei)) t ids' w' ∧
      Resolved w (done ++ [imei]) ids' w' := by
  obtain ⟨id, w', hdoes, hagrees, hregisters, hid⟩ := does_resolve himei h.agrees
  have hdone : Resolves done ids w' := by
    intro imei' himei'
    obtain ⟨id', hids, hid'⟩ := h.resolves imei' himei'
    exact ⟨id', hids, hregisters.vehicles _ _ hid'⟩
  exact ⟨JsMap.set ids imei id, w', hdoes.bind rfl, hagrees, h.registers.trans hregisters,
    hdone.set hid⟩

/-- Every IMEI gets its vehicle. -/
theorem does_resolveAll {imeis : List String} (himeis : ∀ imei ∈ imeis, imeiDigits imei = true)
    {w : World Id} (h : RegistryAgrees w) :
    ∃ ids w', Session.Does (resolveAll imeis) w ids w' ∧ Resolved w imeis ids w' := by
  obtain ⟨ids, w', hdoes, hresolved⟩ := Session.Does.foldlM (J := Resolved w) imeis.eraseDups
    (fun done imei himei ids t ht =>
      does_resolve_next (himeis imei (List.mem_eraseDups.mp himei)) ht)
    (a := Table.empty) ⟨h, .refl w, fun imei himei => by cases himei⟩
  refine ⟨ids, w', hdoes, hresolved.agrees, hresolved.registers, fun imei himei => ?_⟩
  exact hresolved.resolves imei (List.mem_eraseDups.mpr himei)

/-- Whatever fails on the way, at most vehicles are registered. -/
theorem fails_resolveAll {imeis : List String}
    (himeis : ∀ imei ∈ imeis, imeiDigits imei = true) {w w' : World Id} {label : Statement}
    {landed : Bool} (h : RegistryAgrees w)
    (hfails : Session.Fails (resolveAll imeis) w label landed w') :
    RegistryAgrees w' ∧ Registers w w' ∧ label.ofRegistry = true := by
  obtain ⟨before, imei, after, ids, t, hsplit, hbefore, hfails⟩ := Session.fails_foldlM hfails
  have hmem : ∀ imei' ∈ before ++ imei :: after, imeiDigits imei' = true := by
    intro imei' himei'
    rw [← hsplit] at himei'
    exact himeis imei' (List.mem_eraseDups.mp himei')
  obtain ⟨ids', t', hdoes, hresolved⟩ := Session.Does.foldlM (J := Resolved w) before
    (fun done imei' himei' ids t ht =>
      does_resolve_next (hmem imei' (List.mem_append_left _ himei')) ht)
    (a := Table.empty) ⟨h, .refl w, fun imei himei => by cases himei⟩
  obtain ⟨rfl, rfl⟩ := hdoes.unique hbefore
  rcases Session.fails_bind.mp hfails with hfails | ⟨_, _, _, hpure⟩
  · obtain ⟨hagrees, hregisters, hlabel⟩ :=
      fails_resolve (hmem imei (by simp)) hresolved.agrees hfails
    exact ⟨hagrees, hresolved.registers.trans hregisters, hlabel⟩
  · exact (Session.not_fails_pure hpure).elim

section

omit [FreshIds Id]

variable [DecidableEq Id]

/-- A resolved vehicle may be referenced. -/
theorem vehicleReference_resolved {imei : String} {id : Id} {db : TelemetryDb Id}
    (h : db.vehicles.find? imei = some ⟨id, imei⟩) : (vehicleReference db id).1 = true :=
  List.any_eq_true.mpr ⟨_, Table.mem_of_find? h, decide_eq_true rfl⟩

end

end BankPlatform.Telemetry
